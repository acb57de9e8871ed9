import Capy.WhenAll

namespace Capy.WhenAll

open Function Capy.Join

section Work

variable {R Exc : Type}

/-- The exception, the error and the result that a runner with this work to do
is going to record. -/
def Work.raises : Work R Exc → Option Exc
  | .setResult _ throws _ => throws
  | .captureException e => some e
  | _ => none

def Work.reports : Work R Exc → Option ErrorCode
  | .setResult _ none ec => if ec.isError then some ec else none
  | .recordError ec => some ec
  | _ => none

def Work.stores : Work R Exc → Option R
  | .setResult r none _ => some r
  | _ => none

/-- The work that a completed child gives rise to begins here. -/
def Work.begins : Work R Exc → Bool
  | .setResult _ _ _ | .recordError _ | .captureException _ => true
  | _ => false

/-- What is left to do after the work `w` of a child has begun. -/
structure Work.Follows (w v : Work R Exc) : Prop where
  raises : v.raises ≠ none → v.raises = w.raises
  reports : v.reports ≠ none → v.reports = w.reports
  stores : v.stores ≠ none → v.stores = w.stores
  writeException : ∀ e, v = .writeException e → w.raises = some e
  writeError : ∀ ec, v = .writeError ec → w.reports = some ec
  requestStop : v = .requestStop → w.raises ≠ none ∨ w.reports ≠ none
  setResult : ∀ r throws ec, v = .setResult r throws ec → v = w

theorem Work.Follows.refl {w : Work R Exc} (h : w.begins = true) : w.Follows w := by
  cases w <;> simp [Work.begins] at h <;> constructor <;> simp

theorem Work.Follows.captureException {w : Work R Exc} {e : Exc} (h : w.raises = some e) :
    w.Follows (.captureException e) where
  raises _ := h.symm
  reports hne := absurd rfl hne
  stores hne := absurd rfl hne
  writeException := nofun
  writeError := nofun
  requestStop := nofun
  setResult := nofun

theorem Work.Follows.recordError {w : Work R Exc} {ec : ErrorCode} (h : w.reports = some ec) :
    w.Follows (.recordError ec) where
  raises hne := absurd rfl hne
  reports _ := h.symm
  stores hne := absurd rfl hne
  writeException := nofun
  writeError := nofun
  requestStop := nofun
  setResult := nofun

theorem Work.Follows.wroteException {w : Work R Exc} {e : Exc} (h : w.raises = some e) :
    w.Follows (.writeException e) where
  raises hne := absurd rfl hne
  reports hne := absurd rfl hne
  stores hne := absurd rfl hne
  writeException := by
    rintro _ ⟨⟩
    exact h
  writeError := nofun
  requestStop := nofun
  setResult := nofun

theorem Work.Follows.wroteError {w : Work R Exc} {ec : ErrorCode} (h : w.reports = some ec) :
    w.Follows (.writeError ec) where
  raises hne := absurd rfl hne
  reports hne := absurd rfl hne
  stores hne := absurd rfl hne
  writeException := nofun
  writeError := by
    rintro _ ⟨⟩
    exact h
  requestStop := nofun
  setResult := nofun

theorem Work.Follows.stopped {w : Work R Exc} (h : w.raises ≠ none ∨ w.reports ≠ none) :
    w.Follows .requestStop where
  raises hne := absurd rfl hne
  reports hne := absurd rfl hne
  stores hne := absurd rfl hne
  writeException := nofun
  writeError := nofun
  requestStop _ := h
  setResult := nofun

end Work

variable {n : Nat} {P R : Fin n → Type} {Exc : Type}

theorem Work.Follows.work {i : Fin n} {x : Shared R Exc} {w v v' : Work (R i) Exc}
    (h : w.Follows v) (hnext : (WhenAll.work i x v).2 = some v') : w.Follows v' := by
  cases v with
  | setResult r throws ec =>
      obtain rfl := h.setResult r throws ec rfl
      cases throws with
      | some e =>
          obtain rfl := Option.some.inj hnext
          exact .captureException rfl
      | none =>
          simp only [WhenAll.work] at hnext
          split at hnext
          · rename_i hec
            obtain rfl := Option.some.inj hnext
            exact .recordError (by simp [Work.reports, hec])
          · simp at hnext
  | recordError ec =>
      have hec : w.reports = some ec := (h.reports (by simp [Work.reports])).symm
      simp only [WhenAll.work] at hnext
      split at hnext
      · obtain rfl := Option.some.inj hnext
        exact .stopped (.inr (by simp [hec]))
      · obtain rfl := Option.some.inj hnext
        exact .wroteError hec
  | writeError ec =>
      obtain rfl := Option.some.inj hnext
      exact .stopped (.inr (by simp [h.writeError ec rfl]))
  | captureException e =>
      have he : w.raises = some e := (h.raises (by simp [Work.raises])).symm
      simp only [WhenAll.work] at hnext
      split at hnext
      · obtain rfl := Option.some.inj hnext
        exact .stopped (.inl (by simp [he]))
      · obtain rfl := Option.some.inj hnext
        exact .wroteException he
  | writeException e =>
      obtain rfl := Option.some.inj hnext
      exact .stopped (.inl (by simp [h.writeException e rfl]))
  | requestStop => simp [WhenAll.work] at hnext

/-- The value that a runner has recorded so far: the one its child gives rise
to, unless that is still to come. -/
def soFar {P R α : Type} (f : Work R Exc → Option α)
    (begin : Completion P Exc → Option (Work R Exc))
    (b : Branch (Completion P Exc) (Work R Exc)) : Option α :=
  if (b.pending.bind f).isSome then none else (b.outcome.bind begin).bind f

/-- A flag that is exchanged once by each call in the log, and a member that the
caller which found it clear then writes. -/
structure First {α : Type} (flag : Bool) (log : List (Fin n × α))
    (writes : Fin n → α → Prop) (written : α → Prop) : Prop where
  flag : flag = true ↔ log ≠ []
  writer : ∀ i a, writes i a → log.head? = some (i, a)
  written : ∀ i a, log.head? = some (i, a) → writes i a ∨ written a

variable (begin : ∀ i, Completion (P i) Exc → Option (Work (R i) Exc))

/-- What the members of the state hold while the runners are under way. -/
structure Records (x : Shared R Exc)
    (b : ∀ i, Branch (Completion (P i) Exc) (Work (R i) Exc)) : Prop where
  follows : ∀ i w, (b i).pending = some w →
    ∃ v, (b i).outcome.bind (begin i) = some v ∧ v.Follows w
  errors : ∀ i ec, (i, ec) ∈ x.errors ↔ soFar Work.reports (begin i) (b i) = some ec
  exceptions : ∀ i e, (i, e) ∈ x.exceptions ↔ soFar Work.raises (begin i) (b i) = some e
  results : ∀ i, x.results i = soFar Work.stores (begin i) (b i)
  firstError : First x.hasError x.errors
    (fun i ec => (b i).pending = some (.writeError ec)) (x.firstError = ·)
  firstException : First x.hasException x.exceptions
    (fun i e => (b i).pending = some (.writeException e)) (x.firstException = some ·)
  noException : x.exceptions = [] → x.firstException = none
  requested : ∀ i, (b i).lost = false → ((b i).requested = true ↔
    (b i).pending = none ∧ ∃ v, (b i).outcome.bind (begin i) = some v ∧
      (v.raises ≠ none ∨ v.reports ≠ none))

section Progress

variable {begin} {x : Shared R Exc}
  {b b' : ∀ i, Branch (Completion (P i) Exc) (Work (R i) Exc)}

theorem soFar_congr {P R α : Type} {f : Work R Exc → Option α}
    {begin : Completion P Exc → Option (Work R Exc)}
    {b b' : Branch (Completion P Exc) (Work R Exc)} (houtcome : b'.outcome = b.outcome)
    (hpending : (b'.pending.bind f).isSome = (b.pending.bind f).isSome) :
    soFar f begin b' = soFar f begin b := by
  simp [soFar, houtcome, hpending]

theorem Records.other (h : Records begin x b)
    (hsame : ∀ j, (b' j).outcome = (b j).outcome ∧ (b' j).pending = (b j).pending ∧
      ((b' j).lost = false → (b j).lost = false ∧ (b' j).requested = (b j).requested)) :
    Records begin x b' := by
  have houtcome := fun j => (hsame j).1
  have hpending := fun j => (hsame j).2.1
  have hsoFar : ∀ {α : Type} (j : Fin n) (f : Work (R j) Exc → Option α),
      soFar f (begin j) (b' j) = soFar f (begin j) (b j) :=
    fun j f => soFar_congr (houtcome j) (by rw [hpending])
  constructor
  · simpa only [houtcome, hpending] using h.follows
  · simpa only [hsoFar] using h.errors
  · simpa only [hsoFar] using h.exceptions
  · simpa only [hsoFar] using h.results
  · simpa only [hpending] using h.firstError
  · simpa only [hpending] using h.firstException
  · exact h.noException
  · intro i hfound
    obtain ⟨hlost, hrequested⟩ := (hsame i).2.2 hfound
    rw [hrequested, houtcome, hpending]
    exact h.requested i hlost

section Update

variable {α : Type} {i : Fin n} {y : Branch (Completion (P i) Exc) (Work (R i) Exc)}

theorem logged_same {log : List (Fin n × α)} {f : ∀ j, Work (R j) Exc → Option α}
    (h : ∀ j a, (j, a) ∈ log ↔ soFar (f j) (begin j) (b j) = some a)
    (hi : soFar (f i) (begin i) y = soFar (f i) (begin i) (b i)) :
    ∀ j a, (j, a) ∈ log ↔ soFar (f j) (begin j) (update b i y j) = some a :=
  forall_update b i y
    (p := fun j b => ∀ a, (j, a) ∈ log ↔ soFar (f j) (begin j) b = some a)
    (by rw [hi]; exact h i) fun j _ => h j

theorem logged_append {log : List (Fin n × α)} {f : ∀ j, Work (R j) Exc → Option α} {a : α}
    (h : ∀ j a, (j, a) ∈ log ↔ soFar (f j) (begin j) (b j) = some a)
    (hbefore : soFar (f i) (begin i) (b i) = none)
    (hafter : soFar (f i) (begin i) y = some a) (j : Fin n) (a' : α) :
    (j, a') ∈ log ++ [(i, a)] ↔ soFar (f j) (begin j) (update b i y j) = some a' := by
  have hj := h j a'
  rcases eq_or_ne j i with rfl | hne
  · rw [hbefore] at hj
    simp [hj, hafter, eq_comm]
  · simp [hne, hj]

variable {flag : Bool} {log : List (Fin n × α)} {write : ∀ j, α → Work (R j) Exc}
  {written written' : α → Prop} {a : α}

theorem First.same
    (h : First flag log (fun j a => (b j).pending = some (write j a)) written)
    (hi : ∀ a, y.pending = some (write i a) ↔ (b i).pending = some (write i a)) :
    First flag log (fun j a => (update b i y j).pending = some (write j a)) written := by
  have hsame : ∀ j a, (update b i y j).pending = some (write j a) ↔
      (b j).pending = some (write j a) := by
    intro j a
    rcases eq_or_ne j i with rfl | hj
    · rw [update_self]
      exact hi a
    · rw [update_of_ne hj]
  simpa only [hsame] using h

theorem First.record_first
    (h : First flag log (fun j a => (b j).pending = some (write j a)) written)
    (hflag : flag = false) (hinj : ∀ a a', write i a = write i a' → a = a')
    (hy : y.pending = some (write i a)) :
    First true (log ++ [(i, a)])
      (fun j a => (update b i y j).pending = some (write j a)) written := by
  have hnil : log = [] := by
    by_contra hne
    have := h.flag.mpr hne
    simp [hflag] at this
  subst hnil
  constructor
  · simp
  · intro j a' hj
    rcases eq_or_ne j i with rfl | hne
    · rw [update_self, hy] at hj
      simp [hinj _ _ (Option.some.inj hj)]
    · rw [update_of_ne hne] at hj
      have := h.writer j a' hj
      simp at this
  · rintro j a' hhead
    obtain ⟨rfl, rfl⟩ : i = j ∧ a = a' := by simpa using hhead
    exact .inl (by rw [update_self, hy])

theorem First.record_later
    (h : First flag log (fun j a => (b j).pending = some (write j a)) written)
    (hflag : flag = true) (hbefore : ∀ a, (b i).pending ≠ some (write i a))
    (hy : ∀ a, y.pending ≠ some (write i a)) :
    First true (log ++ [(i, a)])
      (fun j a => (update b i y j).pending = some (write j a)) written := by
  have hne := h.flag.mp hflag
  have hhead : (log ++ [(i, a)]).head? = log.head? := List.head?_append_of_ne_nil _ hne
  obtain ⟨-, hwriter, hwritten⟩ := h.same (y := y) fun a => by simp [hbefore, hy]
  constructor
  · simp
  · rw [hhead]
    exact hwriter
  · rw [hhead]
    exact hwritten

theorem First.wrote
    (h : First flag log (fun j a => (b j).pending = some (write j a)) written)
    (hi : (b i).pending = some (write i a)) (hy : ∀ a, y.pending ≠ some (write i a))
    (hwritten : written' a) :
    First flag log (fun j a => (update b i y j).pending = some (write j a)) written' := by
  have hhead := h.writer i a hi
  constructor
  · exact h.flag
  · intro j a' hj
    rcases eq_or_ne j i with rfl | hne
    · rw [update_self] at hj
      exact absurd hj (hy a')
    · rw [update_of_ne hne] at hj
      exact h.writer j a' hj
  · intro j a' hj
    rw [hhead] at hj
    obtain ⟨rfl, rfl⟩ : i = j ∧ a = a' := by simpa using hj
    exact .inr hwritten

theorem Records.follows_update (h : Records begin x b)
    (hy : ∀ w, y.pending = some w → ∃ v, y.outcome.bind (begin i) = some v ∧ v.Follows w) :
    ∀ j w, (update b i y j).pending = some w →
      ∃ v, (update b i y j).outcome.bind (begin j) = some v ∧ v.Follows w :=
  forall_update b i y (p := fun j b => ∀ w, b.pending = some w →
    ∃ v, b.outcome.bind (begin j) = some v ∧ v.Follows w) hy fun j _ => h.follows j

theorem Records.requested_update (h : Records begin x b)
    (hy : y.requested = true ↔ y.pending = none ∧ ∃ v, y.outcome.bind (begin i) = some v ∧
      (v.raises ≠ none ∨ v.reports ≠ none)) :
    ∀ j, (update b i y j).lost = false → ((update b i y j).requested = true ↔
      (update b i y j).pending = none ∧ ∃ v, (update b i y j).outcome.bind (begin j) = some v ∧
        (v.raises ≠ none ∨ v.reports ≠ none)) :=
  forall_update b i y (p := fun j b => b.lost = false → (b.requested = true ↔
    b.pending = none ∧ ∃ v, b.outcome.bind (begin j) = some v ∧
      (v.raises ≠ none ∨ v.reports ≠ none))) (fun _ => hy) fun j _ => h.requested j

theorem Records.results_same (h : Records begin x b)
    (hi : soFar Work.stores (begin i) y = soFar Work.stores (begin i) (b i)) :
    ∀ j, x.results j = soFar Work.stores (begin j) (update b i y j) :=
  forall_update b i y (p := fun j b => x.results j = soFar Work.stores (begin j) b)
    ((h.results i).trans hi.symm) fun j _ => h.results j

theorem Records.complete (hbegins : ∀ i o w, begin i o = some w → w.begins = true)
    (h : Records begin x b) {o : Completion (P i) Exc} (houtcome : (b i).outcome = none)
    (hpending : (b i).pending = none) (hy : y.outcome = some o)
    (hypending : y.pending = begin i o) (hrequested : y.requested = false) :
    Records begin x (update b i y) := by
  have hsoFar : ∀ {α : Type} (f : Work (R i) Exc → Option α),
      soFar f (begin i) y = soFar f (begin i) (b i) := by
    intro α f
    cases hf : (begin i o).bind f <;> simp [soFar, houtcome, hy, hypending, hf]
  have hwrite : ∀ w, w.begins = false → (y.pending = some w ↔ (b i).pending = some w) := by
    intro w hw
    rw [hypending, hpending]
    simp only [reduceCtorEq, iff_false]
    intro heq
    simp [hbegins i o w heq] at hw
  constructor
  · refine h.follows_update fun w hw => ?_
    rw [hypending] at hw
    exact ⟨w, by rw [hy]; exact hw, .refl (hbegins i o w hw)⟩
  · exact logged_same h.errors (hsoFar _)
  · exact logged_same h.exceptions (hsoFar _)
  · exact h.results_same (hsoFar _)
  · exact h.firstError.same fun ec => hwrite _ rfl
  · exact h.firstException.same fun e => hwrite _ rfl
  · exact h.noException
  · refine h.requested_update ?_
    rw [hrequested, hy, hypending]
    simp only [Bool.false_eq_true, Option.bind_some, false_iff]
    rintro ⟨hnone, v, hv, -⟩
    simp [hnone] at hv

/-- A runner with the work `w` of a child to do, which began with `v`, takes a
step that leaves it at `y` with `next` to do. -/
structure Moves {P R : Type} (begin : Completion P Exc → Option (Work R Exc))
    (b y : Branch (Completion P Exc) (Work R Exc)) (w v : Work R Exc)
    (next : Option (Work R Exc)) : Prop where
  pending : b.pending = some w
  next : y.pending = next
  outcome : y.outcome = b.outcome
  total : b.outcome.bind begin = some v
  follows : v.Follows w
  requested : y.requested = w.stops

section Moves

variable {P R : Type} {begin : Completion P Exc → Option (Work R Exc)}
  {b y : Branch (Completion P Exc) (Work R Exc)} {w v : Work R Exc}
  {next : Option (Work R Exc)} (h : Moves begin b y w v next) {f : Work R Exc → Option α}

include h

theorem Moves.stays (hf : (next.bind f).isSome = (f w).isSome) :
    soFar f begin y = soFar f begin b := by
  refine soFar_congr h.outcome ?_
  rw [h.next, h.pending, hf]
  rfl

theorem Moves.before (hf : (f w).isSome = true) : soFar f begin b = none := by
  simp [soFar, h.pending, hf]

theorem Moves.after (hf : next.bind f = none) : soFar f begin y = f v := by
  simp [soFar, h.next, hf, h.outcome, h.total]

end Moves

theorem Records.moves (h : Records begin x b) {w : Work (R i) Exc}
    (hw : (b i).pending = some w) (hlost : (b i).lost = false)
    (houtcome : y.outcome = (b i).outcome) (hpending : y.pending = (WhenAll.work i x w).2)
    (hrequested : y.requested = ((b i).requested || w.stops)) :
    ∃ v, Moves (begin i) (b i) y w v (WhenAll.work i x w).2 := by
  obtain ⟨v, htotal, hv⟩ := h.follows i w hw
  have hnot : (b i).requested = false := by
    by_contra hne
    have := ((h.requested i hlost).mp (by simpa using hne)).1
    simp [hw] at this
  rw [hnot, Bool.false_or] at hrequested
  exact ⟨v, hw, hpending, houtcome, htotal, hv, hrequested⟩

section Working

variable (h : Records begin x b) {v : Work (R i) Exc}

include h

theorem Records.follows_next {w : Work (R i) Exc}
    (hm : Moves (begin i) (b i) y w v (WhenAll.work i x w).2) :
    ∀ j w, (update b i y j).pending = some w →
      ∃ v, (update b i y j).outcome.bind (begin j) = some v ∧ v.Follows w := by
  refine h.follows_update fun w' hw' => ?_
  rw [hm.next] at hw'
  exact ⟨v, by rw [hm.outcome, hm.total], hm.follows.work hw'⟩

theorem Records.requested_next {w : Work (R i) Exc} {next : Option (Work (R i) Exc)}
    (hm : Moves (begin i) (b i) y w v next)
    (hstops : w.stops = true ↔ next = none ∧ (v.raises ≠ none ∨ v.reports ≠ none)) :
    ∀ j, (update b i y j).lost = false → ((update b i y j).requested = true ↔
      (update b i y j).pending = none ∧ ∃ v, (update b i y j).outcome.bind (begin j) = some v ∧
        (v.raises ≠ none ∨ v.reports ≠ none)) := by
  refine h.requested_update ?_
  rw [hm.requested, hm.next, hm.outcome, hm.total, hstops]
  simp

theorem Records.resultThrows {r : R i} {e : Exc} {ec : ErrorCode}
    (hm : Moves (begin i) (b i) y (.setResult r (some e) ec) v
      (WhenAll.work i x (.setResult r (some e) ec)).2) :
    Records begin x (update b i y) := by
  constructor
  · exact h.follows_next hm
  · exact logged_same h.errors (hm.stays rfl)
  · exact logged_same h.exceptions (hm.stays rfl)
  · exact h.results_same (hm.stays rfl)
  · exact h.firstError.same fun ec => by simp [hm.next, hm.pending, WhenAll.work]
  · exact h.firstException.same fun e => by simp [hm.next, hm.pending, WhenAll.work]
  · exact h.noException
  · exact h.requested_next hm (by simp [WhenAll.work, Work.stops])

theorem Records.setResult {r : R i} {ec : ErrorCode}
    (hm : Moves (begin i) (b i) y (.setResult r none ec) v
      (WhenAll.work i x (.setResult r none ec)).2) :
    Records begin { x with results := update x.results i (some r) } (update b i y) := by
  obtain rfl := hm.follows.setResult r none ec rfl
  have hnext : (WhenAll.work i x (.setResult r none ec)).2 =
      if ec.isError then some (.recordError ec) else none := rfl
  have hwrite : ∀ w : Work (R i) Exc, w.begins = false →
      (y.pending = some w ↔ (b i).pending = some w) := by
    intro w hb
    rw [hm.next, hnext, hm.pending]
    cases ec.isError
    · simp only [Bool.false_eq_true, if_false, reduceCtorEq, false_iff]
      rintro ⟨⟩
      simp [Work.begins] at hb
    · simp only [if_true, Option.some.injEq]
      constructor <;> rintro rfl <;> simp [Work.begins] at hb
  constructor
  · exact h.follows_next hm
  · refine logged_same h.errors (hm.stays ?_)
    rw [hnext]
    cases hec : ec.isError <;> simp [Work.reports, hec]
  · refine logged_same h.exceptions (hm.stays ?_)
    rw [hnext]
    cases ec.isError <;> simp [Work.raises]
  · intro j
    rcases eq_or_ne j i with rfl | hne
    · have hnone : (WhenAll.work j x (.setResult r none ec)).2.bind Work.stores = none := by
        rw [hnext]
        cases ec.isError <;> simp [Work.stores]
      simp only [update_self, hm.after hnone, Work.stores]
    · simp only [update_of_ne hne]
      exact h.results j
  · exact h.firstError.same fun ec => hwrite _ rfl
  · exact h.firstException.same fun e => hwrite _ rfl
  · exact h.noException
  · refine h.requested_next hm ?_
    rw [hnext]
    cases hec : ec.isError <;> simp [Work.stops, Work.raises, Work.reports, hec]

theorem Records.recordError {ec : ErrorCode}
    (hm : Moves (begin i) (b i) y (.recordError ec) v (WhenAll.work i x (.recordError ec)).2) :
    Records begin (WhenAll.work i x (.recordError ec)).1 (update b i y) := by
  have hec : v.reports = some ec := (hm.follows.reports (by simp [Work.reports])).symm
  have hnext : (WhenAll.work i x (.recordError ec)).2 =
      if x.hasError then some .requestStop else some (.writeError ec) := rfl
  constructor
  · exact h.follows_next hm
  · refine logged_append h.errors (hm.before (by simp [Work.reports])) ?_
    rw [hm.after, hec]
    rw [hnext]
    cases x.hasError <;> simp [Work.reports]
  · refine logged_same h.exceptions (hm.stays ?_)
    rw [hnext]
    cases x.hasError <;> simp [Work.raises]
  · refine h.results_same (hm.stays ?_)
    rw [hnext]
    cases x.hasError <;> simp [Work.stores]
  · cases hflag : x.hasError
    · exact h.firstError.record_first hflag (by simp) (by simp [hm.next, hnext, hflag])
    · exact h.firstError.record_later hflag (by simp [hm.pending])
        (by simp [hm.next, hnext, hflag])
  · refine h.firstException.same fun e => ?_
    rw [hm.next, hnext, hm.pending]
    cases x.hasError <;> simp
  · exact h.noException
  · refine h.requested_next hm ?_
    rw [hnext]
    cases x.hasError <;> simp [Work.stops]

theorem Records.writeError {ec : ErrorCode}
    (hm : Moves (begin i) (b i) y (.writeError ec) v (some .requestStop)) :
    Records begin { x with firstError := ec } (update b i y) := by
  constructor
  · exact h.follows_next hm
  · exact logged_same h.errors (hm.stays rfl)
  · exact logged_same h.exceptions (hm.stays rfl)
  · exact h.results_same (hm.stays rfl)
  · exact h.firstError.wrote hm.pending (by simp [hm.next]) rfl
  · exact h.firstException.same fun e => by simp [hm.next, hm.pending]
  · exact h.noException
  · exact h.requested_next hm (by simp [Work.stops])

theorem Records.captureException {e : Exc}
    (hm : Moves (begin i) (b i) y (.captureException e) v
      (WhenAll.work i x (.captureException e)).2) :
    Records begin (WhenAll.work i x (.captureException e)).1 (update b i y) := by
  have he : v.raises = some e := (hm.follows.raises (by simp [Work.raises])).symm
  have hnext : (WhenAll.work i x (.captureException e)).2 =
      if x.hasException then some .requestStop else some (.writeException e) := rfl
  constructor
  · exact h.follows_next hm
  · refine logged_same h.errors (hm.stays ?_)
    rw [hnext]
    cases x.hasException <;> simp [Work.reports]
  · refine logged_append h.exceptions (hm.before (by simp [Work.raises])) ?_
    rw [hm.after, he]
    rw [hnext]
    cases x.hasException <;> simp [Work.raises]
  · refine h.results_same (hm.stays ?_)
    rw [hnext]
    cases x.hasException <;> simp [Work.stores]
  · refine h.firstError.same fun e => ?_
    rw [hm.next, hnext, hm.pending]
    cases x.hasException <;> simp
  · cases hflag : x.hasException
    · exact h.firstException.record_first hflag (by simp) (by simp [hm.next, hnext, hflag])
    · exact h.firstException.record_later hflag (by simp [hm.pending])
        (by simp [hm.next, hnext, hflag])
  · simp [WhenAll.work]
  · refine h.requested_next hm ?_
    rw [hnext]
    cases x.hasException <;> simp [Work.stops]

theorem Records.writeException {e : Exc}
    (hm : Moves (begin i) (b i) y (.writeException e) v (some .requestStop)) :
    Records begin { x with firstException := some e } (update b i y) := by
  have hhead := h.firstException.writer i e hm.pending
  constructor
  · exact h.follows_next hm
  · exact logged_same h.errors (hm.stays rfl)
  · exact logged_same h.exceptions (hm.stays rfl)
  · exact h.results_same (hm.stays rfl)
  · exact h.firstError.same fun ec => by simp [hm.next, hm.pending]
  · exact h.firstException.wrote hm.pending (by simp [hm.next]) rfl
  · intro hnil
    simp only at hnil
    simp [hnil] at hhead
  · exact h.requested_next hm (by simp [Work.stops])

theorem Records.requestStop (hm : Moves (begin i) (b i) y .requestStop v none) :
    Records begin x (update b i y) := by
  constructor
  · exact h.follows_next hm
  · exact logged_same h.errors (hm.stays rfl)
  · exact logged_same h.exceptions (hm.stays rfl)
  · exact h.results_same (hm.stays rfl)
  · exact h.firstError.same fun ec => by simp [hm.next, hm.pending]
  · exact h.firstException.same fun e => by simp [hm.next, hm.pending]
  · exact h.noException
  · exact h.requested_next hm (by simpa [Work.stops] using hm.follows.requestStop rfl)

theorem Records.work {w : Work (R i) Exc}
    (hm : Moves (begin i) (b i) y w v (WhenAll.work i x w).2) :
    Records begin (WhenAll.work i x w).1 (update b i y) := by
  cases w with
  | setResult r throws ec =>
      cases throws with
      | some e => exact h.resultThrows hm
      | none => exact h.setResult hm
  | recordError ec => exact h.recordError hm
  | writeError ec => exact h.writeError hm
  | captureException e => exact h.captureException hm
  | writeException e => exact h.writeException hm
  | requestStop => exact h.requestStop hm

end Working

end Update

theorem Records.progress (hbegins : ∀ i o w, begin i o = some w → w.begins = true)
    {x' : Shared R Exc} (h : Records begin x b) (hstep : Progress (body begin) x b x' b') :
    Records begin x' b' := by
  cases hstep with
  | other hsame => exact h.other hsame
  | complete houtcome hpending _ hy hypending hrequested =>
      exact h.complete hbegins houtcome hpending hy hypending hrequested
  | work hw hlost houtcome hpending hrequested =>
      obtain ⟨v, hm⟩ := h.moves hw hlost houtcome hpending hrequested
      exact h.work hm

end Progress

theorem records_initial : Records begin {} fun _ => {} := by
  constructor
  all_goals try simp [soFar, Branch.pending]
  all_goals constructor <;> simp

theorem records_reachable (hn : 0 < n)
    (hbegins : ∀ i o w, begin i o = some w → w.begins = true)
    {s : State (fun i => Completion (P i) Exc) (fun i => Work (R i) Exc) (Shared R Exc)}
    (h : Reachable (body begin) {} s) : Records begin s.shared s.branch :=
  h.invariant hn (records_initial begin) fun hI hstep => hI.progress hbegins hstep

end Capy.WhenAll
