import Capy.WhenAny

namespace Capy.WhenAny

open Function Capy.Join

section Child

variable {T Exc : Type}

/-- The child returned a `results` without an error. -/
def Succeeds (o : Option (Completion T Exc)) : Prop :=
  ∃ r throws, o = some (.returned r throws) ∧ r.ec.isError = false

def failureOf : Completion T Exc → Option (ErrorCode ⊕ Exc)
  | .returned r _ => if r.ec.isError then some (.inl r.ec) else none
  | .threw e => some (.inr e)

/-- The runner has won and has not called `request_stop` yet. -/
def Work.beforeStop : Work T Exc → Bool
  | .writeWinner _ _ | .requestStop _ _ => true
  | _ => false

def Work.races : Work T Exc → Bool
  | .tryWin _ _ => true
  | _ => false

end Child

variable {n : Nat} {P : Fin n → Type} {R Exc : Type}

/-- What holds of the runner of a child with outcome `o` at each point. -/
def WorkOk (keep : Option (∀ i, P i → R)) (x : Shared n R Exc) (i : Fin n)
    (o : Option (Completion (P i) Exc)) : Work (P i) Exc → Prop
  | .tryWin r throws => o = some (.returned r throws) ∧ r.ec.isError = false
  | .writeWinner r throws => o = some (.returned r throws) ∧ x.wins.head? = some i
  | .requestStop r throws =>
      o = some (.returned r throws) ∧ x.wins.head? = some i ∧ x.winnerIndex = i
  | .emplace r throws => keep ≠ none ∧
      o = some (.returned r throws) ∧ x.wins.head? = some i ∧ x.winnerIndex = i
  | .recordError ec => o.bind failureOf = some (.inl ec)
  | .recordException e => o.bind failureOf = some (.inr e)

/-- What the winner has left. -/
def Produced (keep : Option (∀ i, P i → R)) (x : Shared n R Exc) (i : Fin n)
    (r : Results (P i)) (throws : Option Exc) : Prop :=
  match keep, throws with
  | none, _ => x.result = none ∧ x.winnerException = none
  | some k, none => x.result = some (k i r.payload) ∧ x.winnerException = none
  | some _, some e => x.result = none ∧ x.winnerException = some e

/-- What the last failure recorded has left. -/
def LastFailure (x : Shared n R Exc) : Prop :=
  match x.failures.getLast? with
  | none => x.lastError = {} ∧ x.lastException = none
  | some (_, .inl ec) => x.lastError = ec ∧ x.lastException = none
  | some (_, .inr e) => x.lastError = {} ∧ x.lastException = some e

/-- What the members of the state hold of runner `i`. -/
structure Runner (keep : Option (∀ i, P i → R)) (x : Shared n R Exc) (i : Fin n)
    (b : Branch (Completion (P i) Exc) (Work (P i) Exc)) : Prop where
  works : ∀ w, b.pending = some w → WorkOk keep x i b.outcome w
  claims : i ∈ x.wins ↔ Succeeds b.outcome ∧ b.pending.elim false Work.races = false
  winner : x.wins.head? = some i → b.pending = none →
    x.winnerIndex = i ∧ ∃ r throws, b.outcome = some (.returned r throws) ∧
      Produced keep x i r throws
  unproduced : x.wins.head? = some i → b.pending ≠ none →
    x.result = none ∧ x.winnerException = none
  failures : ∀ f, (i, f) ∈ x.failures ↔
    b.pending = none ∧ b.outcome.bind failureOf = some f
  requested : b.lost = false → (b.requested = true ↔
    x.wins.head? = some i ∧ b.pending.elim false Work.beforeStop = false)

/-- What the members of the state hold while the runners are under way. -/
structure Race (keep : Option (∀ i, P i → R)) (x : Shared n R Exc)
    (b : ∀ i, Branch (Completion (P i) Exc) (Work (P i) Exc)) : Prop where
  runners : ∀ i, Runner keep x i (b i)
  flag : x.hasWinner = true ↔ x.wins ≠ []
  unclaimed : x.wins = [] → x.result = none ∧ x.winnerException = none
  last : LastFailure x

section Progress

variable {keep : Option (∀ i, P i → R)} {x x' : Shared n R Exc}
  {b b' : ∀ i, Branch (Completion (P i) Exc) (Work (P i) Exc)}

theorem Runner.frame {i : Fin n} {b : Branch (Completion (P i) Exc) (Work (P i) Exc)}
    (h : Runner keep x i b) (hmem : i ∈ x'.wins ↔ i ∈ x.wins)
    (hhead : x'.wins.head? = some i ↔ x.wins.head? = some i)
    (hwinner : x.wins.head? = some i → x'.winnerIndex = x.winnerIndex ∧
      x'.result = x.result ∧ x'.winnerException = x.winnerException)
    (hfailures : ∀ f, (i, f) ∈ x'.failures ↔ (i, f) ∈ x.failures) : Runner keep x' i b := by
  constructor
  · intro w hw
    have hok := h.works w hw
    cases w with
    | writeWinner r throws => exact ⟨hok.1, hhead.mpr hok.2⟩
    | requestStop r throws =>
        obtain ⟨ho, hi, hindex⟩ := hok
        exact ⟨ho, hhead.mpr hi, (hwinner hi).1.trans hindex⟩
    | emplace r throws =>
        obtain ⟨hkeep, ho, hi, hindex⟩ := hok
        exact ⟨hkeep, ho, hhead.mpr hi, (hwinner hi).1.trans hindex⟩
    | _ => exact hok
  · rw [hmem]
    exact h.claims
  · intro hi hpending
    obtain ⟨hindex, hresult, hexception⟩ := hwinner (hhead.mp hi)
    simpa only [Produced, hindex, hresult, hexception] using h.winner (hhead.mp hi) hpending
  · intro hi hpending
    obtain ⟨-, hresult, hexception⟩ := hwinner (hhead.mp hi)
    rw [hresult, hexception]
    exact h.unproduced (hhead.mp hi) hpending
  · intro f
    rw [hfailures]
    exact h.failures f
  · rw [hhead]
    exact h.requested

theorem Race.other (h : Race keep x b)
    (hsame : ∀ j, (b' j).outcome = (b j).outcome ∧ (b' j).pending = (b j).pending ∧
      ((b' j).lost = false → (b j).lost = false ∧ (b' j).requested = (b j).requested)) :
    Race keep x b' := by
  refine { h with runners := fun i => ?_ }
  obtain ⟨houtcome, hpending, hfound⟩ := hsame i
  obtain ⟨hworks, hclaims, hwinner, hunproduced, hfailures, hrequested⟩ := h.runners i
  rw [← houtcome, ← hpending] at *
  refine ⟨hworks, hclaims, hwinner, hunproduced, hfailures, fun hlost => ?_⟩
  rw [(hfound hlost).2]
  exact hrequested (hfound hlost).1

theorem resultsRunner_ok (keep : Option (∀ i, P i → R)) (x : Shared n R Exc) {i : Fin n}
    (o : Completion (P i) Exc) :
    ∃ w, resultsRunner o = some w ∧ WorkOk keep x i (some o) w ∧
      (w.races = true ↔ Succeeds (some o)) := by
  cases o with
  | threw e =>
      refine ⟨.recordException e, rfl, rfl, ?_⟩
      simp [Work.races, Succeeds]
  | returned r throws =>
      cases hec : r.ec.isError
      · refine ⟨.tryWin r throws, by simp [resultsRunner, hec], ⟨rfl, hec⟩, ?_⟩
        simp [Work.races, Succeeds, hec]
      · refine ⟨.recordError r.ec, by simp [resultsRunner, hec], ?_, ?_⟩
        · simp [WorkOk, failureOf, hec]
        · simp [Work.races, Succeeds, hec]

section Update

variable {i : Fin n} {y : Branch (Completion (P i) Exc) (Work (P i) Exc)}

theorem Race.complete (h : Race keep x b) {o : Completion (P i) Exc}
    (houtcome : (b i).outcome = none) (hy : y.outcome = some o)
    (hypending : y.pending = resultsRunner o) (hrequested : y.requested = false) :
    Race keep x (update b i y) := by
  obtain ⟨w, hw, hok, hraces⟩ := resultsRunner_ok keep x o
  rw [hw] at hypending
  have hout : i ∉ x.wins := by
    rw [(h.runners i).claims]
    rintro ⟨⟨r, throws, hr, -⟩, -⟩
    simp [houtcome] at hr
  have hhead : x.wins.head? ≠ some i := fun hi => hout (List.mem_of_mem_head? hi)
  refine ⟨forall_update b i y (p := Runner keep x) ?_ fun j _ => h.runners j,
    h.flag, h.unclaimed, h.last⟩
  constructor
  · intro w' hw'
    rw [hypending] at hw'
    obtain rfl := Option.some.inj hw'
    rw [hy]
    exact hok
  · rw [hy, hypending]
    simp only [hout, false_iff]
    rintro ⟨hs, hnot⟩
    simp [hraces.mpr hs] at hnot
  · exact fun hi => absurd hi hhead
  · exact fun hi => absurd hi hhead
  · intro f
    rw [(h.runners i).failures, houtcome, hypending]
    simp
  · simp [hrequested, hhead]

/-- What one step of the winner leaves to the other runners. -/
theorem Race.others_of_head (h : Race keep x b) (hi : x.wins.head? = some i)
    (hwins : x'.wins = x.wins) (hfailures : x'.failures = x.failures) :
    ∀ j, j ≠ i → Runner keep x' j (b j) := by
  intro j hj
  have hhead : x.wins.head? ≠ some j := by
    rw [hi]
    exact fun heq => hj (Option.some.inj heq).symm
  refine (h.runners j).frame (by rw [hwins]) (by rw [hwins]) (fun hj => absurd hj hhead) ?_
  simp [hfailures]

section Working

variable (h : Race keep x b) {r : Results (P i)} {throws : Option Exc}

include h

theorem Race.tryWin (hw : (b i).pending = some (.tryWin r throws))
    (hlost : (b i).lost = false) (houtcome : y.outcome = (b i).outcome)
    (hpending : y.pending = if x.hasWinner then none else some (.writeWinner r throws))
    (hrequested : y.requested = (b i).requested) :
    Race keep { x with hasWinner := true, wins := x.wins ++ [i] } (update b i y) := by
  have hi := h.runners i
  obtain ⟨ho, hec⟩ := hi.works _ hw
  have hout : i ∉ x.wins := by
    rw [hi.claims, hw]
    simp [Work.races]
  have hhead : x.wins.head? ≠ some i := fun hi => hout (List.mem_of_mem_head? hi)
  have hnot : y.requested = false := by
    rw [hrequested]
    simpa [hhead] using hi.requested hlost
  have hfailures : ∀ f, (i, f) ∉ x.failures := by
    intro f
    rw [hi.failures, hw]
    simp
  have hfailed : y.outcome.bind failureOf = none := by simp [houtcome, ho, failureOf, hec]
  have hsucceeds : Succeeds y.outcome := ⟨r, throws, houtcome.trans ho, hec⟩
  cases hflag : x.hasWinner with
  | false =>
      have hnil : x.wins = [] := by
        by_contra hne
        have := h.flag.mpr hne
        simp [hflag] at this
      have hy : y.pending = some (.writeWinner r throws) := by simp [hpending, hflag]
      refine ⟨forall_update b i y (p := Runner keep _) ?_ fun j hj => ?_, by simp, by simp,
        h.last⟩
      · constructor
        · intro w' hw'
          rw [hy] at hw'
          obtain rfl := Option.some.inj hw'
          exact ⟨houtcome.trans ho, by simp [hnil]⟩
        · simp [hsucceeds, hy, Work.races]
        · simp [hy]
        · exact fun _ _ => h.unclaimed hnil
        · simp [hy, hfailures]
        · simp [hnot, hy, Work.beforeStop]
      · refine (h.runners j).frame (by simp [hj]) ?_ (by simp [hnil]) (by simp)
        simp [hnil, hj.symm]
  | true =>
      have hne := h.flag.mp hflag
      have hsame : (x.wins ++ [i]).head? = x.wins.head? := List.head?_append_of_ne_nil _ hne
      have hy : y.pending = none := by simp [hpending, hflag]
      refine ⟨forall_update b i y (p := Runner keep _) ?_ fun j hj => ?_, by simp, by simp,
        h.last⟩
      · constructor
        · simp [hy]
        · simp [hsucceeds, hy]
        · exact fun hi => absurd (hsame ▸ hi) hhead
        · exact fun hi => absurd (hsame ▸ hi) hhead
        · simp [hfailed, hfailures]
        · simp [hnot, hsame, hhead]
      · exact (h.runners j).frame (by simp [hj]) (by rw [hsame]) (by simp) (by simp)

theorem Race.writeWinner (hw : (b i).pending = some (.writeWinner r throws))
    (houtcome : y.outcome = (b i).outcome) (hlost : (b i).lost = false)
    (hpending : y.pending = some (.requestStop r throws))
    (hrequested : y.requested = (b i).requested) :
    Race keep { x with winnerIndex := i } (update b i y) := by
  have hi := h.runners i
  obtain ⟨ho, hhead⟩ := hi.works _ hw
  refine ⟨forall_update b i y (p := Runner keep _) ?_ (h.others_of_head hhead rfl rfl),
    h.flag, h.unclaimed, h.last⟩
  constructor
  · intro w' hw'
    rw [hpending] at hw'
    obtain rfl := Option.some.inj hw'
    exact ⟨houtcome.trans ho, hhead, rfl⟩
  · have := hi.claims
    simpa [hw, houtcome, hpending, Work.races] using this
  · simp [hpending]
  · exact fun _ _ => hi.unproduced hhead (by simp [hw])
  · have := hi.failures
    simpa [hw, hpending] using this
  · intro _
    have := hi.requested hlost
    simpa [hw, hpending, hrequested, Work.beforeStop] using this

theorem Race.requestStop (hw : (b i).pending = some (.requestStop r throws))
    (houtcome : y.outcome = (b i).outcome)
    (hpending : y.pending = if keep.isSome then some (.emplace r throws) else none)
    (hrequested : y.requested = true) : Race keep x (update b i y) := by
  have hi := h.runners i
  obtain ⟨ho, hhead, hindex⟩ := hi.works _ hw
  have hunproduced := hi.unproduced hhead (by simp [hw])
  obtain ⟨hsucceeds, -⟩ := hi.claims.mp (List.mem_of_mem_head? hhead)
  have hfailures : ∀ f, (i, f) ∉ x.failures := by
    intro f
    rw [hi.failures, hw]
    simp
  refine ⟨forall_update b i y (p := Runner keep _) ?_ (h.others_of_head hhead rfl rfl),
    h.flag, h.unclaimed, h.last⟩
  cases hkeep : keep with
  | none =>
      have hy : y.pending = none := by simp [hpending, hkeep]
      have hfailed : y.outcome.bind failureOf = none := by
        obtain ⟨r', throws', hr, hec⟩ := hsucceeds
        simp [houtcome, hr, failureOf, hec]
      subst hkeep
      constructor
      · simp [hy]
      · simp [hy, houtcome, hsucceeds, List.mem_of_mem_head? hhead]
      · exact fun _ _ => ⟨hindex, r, throws, houtcome.trans ho, hunproduced⟩
      · exact fun _ _ => hunproduced
      · simp [hfailed, hfailures]
      · simp [hrequested, hhead, hy]
  | some k =>
      have hy : y.pending = some (.emplace r throws) := by simp [hpending, hkeep]
      subst hkeep
      constructor
      · intro w' hw'
        rw [hy] at hw'
        obtain rfl := Option.some.inj hw'
        exact ⟨by simp, houtcome.trans ho, hhead, hindex⟩
      · simp [hy, houtcome, hsucceeds, List.mem_of_mem_head? hhead, Work.races]
      · simp [hy]
      · exact fun _ _ => hunproduced
      · simp [hy, hfailures]
      · simp [hrequested, hhead, hy, Work.beforeStop]

theorem Race.emplace (hw : (b i).pending = some (.emplace r throws))
    (houtcome : y.outcome = (b i).outcome) (hlost : (b i).lost = false)
    (hpending : y.pending = none) (hrequested : y.requested = (b i).requested) :
    Race keep (WhenAny.work keep i x (.emplace r throws)).1 (update b i y) := by
  have hi := h.runners i
  obtain ⟨hkeep, ho, hhead, hindex⟩ := hi.works _ hw
  obtain ⟨k, rfl⟩ := Option.ne_none_iff_exists'.mp hkeep
  obtain ⟨hresult, hexception⟩ := hi.unproduced hhead (by simp [hw])
  obtain ⟨hsucceeds, -⟩ := hi.claims.mp (List.mem_of_mem_head? hhead)
  have hne : x.wins ≠ [] := List.ne_nil_of_mem (List.mem_of_mem_head? hhead)
  have hfailures : ∀ f, (i, f) ∉ x.failures := by
    intro f
    rw [hi.failures, hw]
    simp
  have hfailed : y.outcome.bind failureOf = none := by
    obtain ⟨r', throws', hr, hec⟩ := hsucceeds
    simp [houtcome, hr, failureOf, hec]
  have hstop : y.requested = true := by
    rw [hrequested, hi.requested hlost]
    simp [hhead, hw, Work.beforeStop]
  cases throws with
  | some e =>
      refine ⟨forall_update b i y (p := Runner (some k) _) ?_
        (h.others_of_head hhead rfl rfl), h.flag, fun hnil => absurd hnil hne, h.last⟩
      constructor
      · simp [hpending]
      · simp [WhenAny.work, hpending, houtcome, hsucceeds, List.mem_of_mem_head? hhead]
      · exact fun _ _ => ⟨hindex, r, some e, houtcome.trans ho, hresult, rfl⟩
      · exact fun _ hp => absurd hpending hp
      · simp [WhenAny.work, hfailed, hfailures]
      · simp [WhenAny.work, hstop, hhead, hpending]
  | none =>
      refine ⟨forall_update b i y (p := Runner (some k) _) ?_
        (h.others_of_head hhead rfl rfl), h.flag, fun hnil => absurd hnil hne, h.last⟩
      constructor
      · simp [hpending]
      · simp [WhenAny.work, hpending, houtcome, hsucceeds, List.mem_of_mem_head? hhead]
      · exact fun _ _ => ⟨hindex, r, none, houtcome.trans ho, rfl, hexception⟩
      · exact fun _ hp => absurd hpending hp
      · simp [WhenAny.work, hfailed, hfailures]
      · simp [WhenAny.work, hstop, hhead, hpending]

theorem Race.record {w : Work (P i) Exc} {f : ErrorCode ⊕ Exc}
    (hw : (b i).pending = some w) (hf : (b i).outcome.bind failureOf = some f)
    (hlost : (b i).lost = false) (houtcome : y.outcome = (b i).outcome)
    (hpending : y.pending = none) (hrequested : y.requested = (b i).requested)
    (hwinner : x'.hasWinner = x.hasWinner ∧ x'.winnerIndex = x.winnerIndex ∧
      x'.winnerException = x.winnerException ∧ x'.result = x.result ∧ x'.wins = x.wins)
    (hfailures : x'.failures = x.failures ++ [(i, f)]) (hlast : LastFailure x') :
    Race keep x' (update b i y) := by
  have hi := h.runners i
  obtain ⟨hflag, hindex, hexception, hresult, hwins⟩ := hwinner
  have hnot : ¬Succeeds (b i).outcome := by
    rintro ⟨r, throws, ho, hec⟩
    simp [ho, failureOf, hec] at hf
  have hout : i ∉ x.wins := fun hmem => hnot (hi.claims.mp hmem).1
  have hhead : x.wins.head? ≠ some i := fun hi => hout (List.mem_of_mem_head? hi)
  have hbefore : ∀ f, (i, f) ∉ x.failures := by
    intro f
    rw [hi.failures, hw]
    simp
  refine ⟨forall_update b i y (p := Runner keep _) ?_ fun j hj => ?_, ?_, ?_, hlast⟩
  · constructor
    · simp [hpending]
    · simp [hwins, hout, houtcome, hnot]
    · exact fun hi => absurd (hwins ▸ hi) hhead
    · exact fun hi => absurd (hwins ▸ hi) hhead
    · simp [hfailures, hbefore, hpending, houtcome, hf, eq_comm]
    · intro _
      rw [hrequested, hwins]
      simpa [hhead] using hi.requested hlost
  · exact (h.runners j).frame (by rw [hwins]) (by rw [hwins])
      (fun _ => ⟨hindex, hresult, hexception⟩) (by simp [hfailures, hj])
  · rw [hflag, hwins]
    exact h.flag
  · rw [hwins, hresult, hexception]
    exact h.unclaimed

end Working

end Update

theorem Race.progress (h : Race keep x b) (hstep : Progress (body keep) x b x' b') :
    Race keep x' b' := by
  cases hstep with
  | other hsame => exact h.other hsame
  | complete houtcome _ _ hy hypending hrequested =>
      exact h.complete houtcome hy hypending hrequested
  | @work i w y hw hlost houtcome hpending hrequested =>
      have hok := (h.runners i).works w hw
      cases w with
      | tryWin r throws =>
          exact h.tryWin hw hlost houtcome hpending (by simpa [body, Work.stops] using hrequested)
      | writeWinner r throws =>
          exact h.writeWinner hw houtcome hlost hpending
            (by simpa [body, Work.stops] using hrequested)
      | requestStop r throws =>
          exact h.requestStop hw houtcome hpending
            (by simpa [body, Work.stops] using hrequested)
      | emplace r throws =>
          refine h.emplace hw houtcome hlost ?_ (by simpa [body, Work.stops] using hrequested)
          cases throws <;> exact hpending
      | recordError ec =>
          exact h.record hw hok hlost houtcome hpending
            (by simpa [body, Work.stops] using hrequested) ⟨rfl, rfl, rfl, rfl, rfl⟩ rfl
            (by simp [LastFailure, body, WhenAny.work])
      | recordException e =>
          exact h.record hw hok hlost houtcome hpending
            (by simpa [body, Work.stops] using hrequested) ⟨rfl, rfl, rfl, rfl, rfl⟩ rfl
            (by simp [LastFailure, body, WhenAny.work])

end Progress

theorem race_initial (keep : Option (∀ i, P i → R)) :
    Race keep ({} : Shared n R Exc) fun _ => {} := by
  refine ⟨fun i => ?_, by simp, by simp, by simp [LastFailure]⟩
  constructor <;> simp [Branch.pending, Succeeds]

theorem race_reachable (hn : 0 < n) {keep : Option (∀ i, P i → R)} {s : RaceState P R Exc}
    (h : Reachable (body keep) {} s) : Race keep s.shared s.branch :=
  h.invariant hn (race_initial keep) fun hI hstep => hI.progress hstep

end Capy.WhenAny
