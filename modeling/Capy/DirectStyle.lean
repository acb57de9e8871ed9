import Mathlib.Data.List.Basic
import Mathlib.Logic.Relation

namespace Capy.DirectStyle

/-- What a program does next: return, throw, start an operation, or call a
program of some kind. The last two go on with the result that comes back. -/
inductive Act (S Op V X K : Type*) where
  | ret (v : V)
  | throws (x : X)
  | op (o : Op) (k : Except X V → S)
  | call (kind : K) (child : S) (k : Except X V → S)

/-- What the surroundings see of a run and decide in it. -/
inductive Obs (Op V X : Type*) where
  | start (o : Op)
  | result (r : Except X V)
  | check (stop : Bool)

/-- The code of the programs, the kinds that look for a stop request, and what
they throw when they find one. -/
structure Language (S Op V X K : Type*) where
  code : S → Act S Op V X K
  checks : K → Bool
  stopped : X

variable {S Op V X K : Type*}

/-- A program about to begin, and one that has begun. -/
inductive Point (S K : Type*) where
  | enter (kind : K) (s : S)
  | run (kind : K) (s : S)

/-- Resuming a program of kind `kind` with the result `r`, which is observed as
`seen`: the result is seen and handed over only when no stop is found. -/
inductive Guarded (L : Language S Op V X K) (kind : K) (seen : List (Obs Op V X))
    (r : Except X V) : List (Obs Op V X) → Except X V → Prop
  | skip : L.checks kind = false → Guarded L kind seen r seen r
  | pass : L.checks kind = true → Guarded L kind seen r (.check false :: seen) r
  | stop : L.checks kind = true → Guarded L kind seen r [.check true] (.error L.stopped)

/-- The direct-style meaning: from this point the program runs to this outcome,
with these observations. -/
inductive Eval (L : Language S Op V X K) :
    Point S K → List (Obs Op V X) → Except X V → Prop
  | skip {kind s w out} : L.checks kind = false → Eval L (.run kind s) w out →
      Eval L (.enter kind s) w out
  | pass {kind s w out} : L.checks kind = true → Eval L (.run kind s) w out →
      Eval L (.enter kind s) (.check false :: w) out
  | stop {kind s} : L.checks kind = true →
      Eval L (.enter kind s) [.check true] (.error L.stopped)
  | ret {kind s v} : L.code s = .ret v → Eval L (.run kind s) [] (.ok v)
  | throws {kind s x} : L.code s = .throws x → Eval L (.run kind s) [] (.error x)
  | op {kind s o k r r' w w' out} : L.code s = .op o k →
      Guarded L kind [.result r] r w r' → Eval L (.run kind (k r')) w' out →
      Eval L (.run kind s) (.start o :: (w ++ w')) out
  | call {kind s kind' child k r r' w₁ w₂ w₃ out} : L.code s = .call kind' child k →
      Eval L (.enter kind' child) w₁ r → Guarded L kind [] r w₂ r' →
      Eval L (.run kind (k r')) w₃ out →
      Eval L (.run kind s) (w₁ ++ (w₂ ++ w₃)) out

inductive Control (S V X K : Type*) where
  | enter (kind : K) (s : S)
  | run (kind : K) (s : S)
  | wait (kind : K) (k : Except X V → S)
  | woken (kind : K) (k : Except X V → S) (r : Except X V)
  | finish (r : Except X V)

/-- Where the machine stands, and the callers that wait, innermost first. -/
structure Config (S V X K : Type*) where
  control : Control S V X K
  callers : List (K × (Except X V → S))

inductive Step (L : Language S Op V X K) :
    Config S V X K → List (Obs Op V X) → Config S V X K → Prop
  | skip {kind s cs} : L.checks kind = false →
      Step L ⟨.enter kind s, cs⟩ [] ⟨.run kind s, cs⟩
  | pass {kind s cs} : L.checks kind = true →
      Step L ⟨.enter kind s, cs⟩ [.check false] ⟨.run kind s, cs⟩
  | stop {kind s cs} : L.checks kind = true →
      Step L ⟨.enter kind s, cs⟩ [.check true] ⟨.finish (.error L.stopped), cs⟩
  | ret {kind s v cs} : L.code s = .ret v →
      Step L ⟨.run kind s, cs⟩ [] ⟨.finish (.ok v), cs⟩
  | throws {kind s x cs} : L.code s = .throws x →
      Step L ⟨.run kind s, cs⟩ [] ⟨.finish (.error x), cs⟩
  | op {kind s o k cs} : L.code s = .op o k →
      Step L ⟨.run kind s, cs⟩ [.start o] ⟨.wait kind k, cs⟩
  | complete {kind k r cs} : Step L ⟨.wait kind k, cs⟩ [] ⟨.woken kind k r, cs⟩
  | resume {kind k r r' w cs} : Guarded L kind [.result r] r w r' →
      Step L ⟨.woken kind k r, cs⟩ w ⟨.run kind (k r'), cs⟩
  | call {kind s kind' child k cs} : L.code s = .call kind' child k →
      Step L ⟨.run kind s, cs⟩ [] ⟨.enter kind' child, (kind, k) :: cs⟩
  | back {kind k r r' w cs} : Guarded L kind [] r w r' →
      Step L ⟨.finish r, (kind, k) :: cs⟩ w ⟨.run kind (k r'), cs⟩

/-- A run of the machine with its observations. -/
inductive Steps (L : Language S Op V X K) :
    Config S V X K → List (Obs Op V X) → Config S V X K → Prop
  | refl {c} : Steps L c [] c
  | head {c c' c'' w w'} : Step L c w c' → Steps L c' w' c'' → Steps L c (w ++ w') c''

variable {L : Language S Op V X K}

theorem Steps.single {c c' : Config S V X K} {w : List (Obs Op V X)} (h : Step L c w c') :
    Steps L c w c' := by
  simpa using Steps.head h .refl

theorem Steps.trans {c c' c'' : Config S V X K} {w w' : List (Obs Op V X)}
    (h : Steps L c w c') (h' : Steps L c' w' c'') : Steps L c (w ++ w') c'' := by
  induction h with
  | refl => exact h'
  | head hstep _ ih =>
      rw [List.append_assoc]
      exact .head hstep (ih h')

/-- How a control point goes on to an outcome. -/
inductive Control.Eval (L : Language S Op V X K) :
    Control S V X K → List (Obs Op V X) → Except X V → Prop
  | enter {kind s w out} : DirectStyle.Eval L (.enter kind s) w out →
      Control.Eval L (.enter kind s) w out
  | run {kind s w out} : DirectStyle.Eval L (.run kind s) w out →
      Control.Eval L (.run kind s) w out
  | wait {kind k r r' w w' out} : Guarded L kind [.result r] r w r' →
      DirectStyle.Eval L (.run kind (k r')) w' out →
      Control.Eval L (.wait kind k) (w ++ w') out
  | woken {kind k r r' w w' out} : Guarded L kind [.result r] r w r' →
      DirectStyle.Eval L (.run kind (k r')) w' out →
      Control.Eval L (.woken kind k r) (w ++ w') out
  | finish {r} : Control.Eval L (.finish r) [] r

/-- How the callers make an outcome of the result of what they called. -/
inductive Returns (L : Language S Op V X K) :
    List (K × (Except X V → S)) → Except X V → List (Obs Op V X) → Except X V → Prop
  | nil {r} : Returns L [] r [] r
  | cons {kind k cs r r' w₁ w₂ w₃ out out'} : Guarded L kind [] r w₁ r' →
      Eval L (.run kind (k r')) w₂ out → Returns L cs out w₃ out' →
      Returns L ((kind, k) :: cs) r (w₁ ++ (w₂ ++ w₃)) out'

/-- How a configuration goes on to the outcome of the whole program. -/
def Config.Eval (L : Language S Op V X K) (c : Config S V X K) (w : List (Obs Op V X))
    (out : Except X V) : Prop :=
  ∃ w₁ w₂ r, Control.Eval L c.control w₁ r ∧ Returns L c.callers r w₂ out ∧ w = w₁ ++ w₂

theorem Step.eval {c c' : Config S V X K} {w w' : List (Obs Op V X)} {out : Except X V}
    (hstep : Step L c w c') (h : c'.Eval L w' out) : c.Eval L (w ++ w') out := by
  obtain ⟨w₁, w₂, r, hcontrol, hcallers, rfl⟩ := h
  rw [← List.append_assoc]
  cases hstep with
  | skip hkind =>
      cases hcontrol with
      | run hrun => exact ⟨_, _, r, .enter (.skip hkind hrun), hcallers, rfl⟩
  | pass hkind =>
      cases hcontrol with
      | run hrun => exact ⟨_, _, r, .enter (.pass hkind hrun), hcallers, rfl⟩
  | stop hkind =>
      cases hcontrol
      exact ⟨_, _, _, .enter (.stop hkind), hcallers, rfl⟩
  | ret hcode =>
      cases hcontrol
      exact ⟨_, _, _, .run (.ret hcode), hcallers, rfl⟩
  | throws hcode =>
      cases hcontrol
      exact ⟨_, _, _, .run (.throws hcode), hcallers, rfl⟩
  | op hcode =>
      cases hcontrol with
      | wait hguard hrun => exact ⟨_, _, r, .run (.op hcode hguard hrun), hcallers, rfl⟩
  | complete =>
      cases hcontrol with
      | woken hguard hrun => exact ⟨_, _, r, .wait hguard hrun, hcallers, rfl⟩
  | resume hguard =>
      cases hcontrol with
      | run hrun => exact ⟨_, _, r, .woken hguard hrun, hcallers, rfl⟩
  | call hcode =>
      cases hcontrol with
      | enter hchild =>
          cases hcallers with
          | cons hguard hrun hcallers =>
              refine ⟨_, _, _, .run (.call hcode hchild hguard hrun), hcallers, ?_⟩
              simp
  | back hguard =>
      cases hcontrol with
      | run hrun =>
          refine ⟨[], _, _, .finish, .cons hguard hrun hcallers, ?_⟩
          simp

theorem Steps.eval {c c' : Config S V X K} {w w' : List (Obs Op V X)} {out : Except X V}
    (hsteps : Steps L c w c') (h : c'.Eval L w' out) : c.Eval L (w ++ w') out := by
  induction hsteps with
  | refl => exact h
  | head hstep _ ih =>
      rw [List.append_assoc]
      exact hstep.eval (ih h)

/-- Where the machine stands at a point of a program. -/
def Point.control : Point S K → Control S V X K
  | .enter kind s => .enter kind s
  | .run kind s => .run kind s

theorem Eval.steps {p : Point S K} {w : List (Obs Op V X)} {out : Except X V}
    (h : Eval L p w out) (cs : List (K × (Except X V → S))) :
    Steps L ⟨p.control, cs⟩ w ⟨.finish out, cs⟩ := by
  induction h generalizing cs with
  | skip hkind _ ih => exact .head (.skip hkind) (ih cs)
  | pass hkind _ ih => exact .head (.pass hkind) (ih cs)
  | stop hkind => exact .single (.stop hkind)
  | ret hcode => exact .single (.ret hcode)
  | throws hcode => exact .single (.throws hcode)
  | op hcode hguard _ ih =>
      exact .head (.op hcode) (.head (w := []) .complete (.head (.resume hguard) (ih cs)))
  | call hcode _ hguard _ ihchild ih =>
      have hback : Steps L _ _ _ := .head (.back hguard) (ih cs)
      exact .head (w := []) (.call hcode) ((ihchild _).trans hback)

/-- The machine and the direct-style meaning agree. -/
theorem steps_finish_iff {p : Point S K} {w : List (Obs Op V X)} {out : Except X V} :
    Steps L ⟨p.control, []⟩ w ⟨.finish out, []⟩ ↔ Eval L p w out := by
  constructor
  · intro h
    have hend : (⟨.finish out, []⟩ : Config S V X K).Eval L [] out :=
      ⟨[], [], out, .finish, .nil, rfl⟩
    obtain ⟨w₁, w₂, r, hcontrol, hcallers, hw⟩ := h.eval hend
    cases hcallers
    obtain rfl : w = w₁ := by simpa using hw
    cases p with
    | enter kind s =>
        cases hcontrol with
        | enter hp => exact hp
    | run kind s =>
        cases hcontrol with
        | run hp => exact hp
  · intro h
    exact h.steps []

theorem Guarded.agree {kind : K} {seen w₁ w₂ : List (Obs Op V X)} {r r₁ r₂ : Except X V}
    {stop : Bool} (h₁ : Guarded L kind seen r w₁ r₁) (h₂ : Guarded L kind seen r w₂ r₂)
    (hw₁ : ∀ b, .check b ∈ w₁ → b = stop) (hw₂ : ∀ b, .check b ∈ w₂ → b = stop) :
    w₁ = w₂ ∧ r₁ = r₂ := by
  cases h₁ <;> cases h₂ <;> grind

/-- Apart from the results of operations, the machine leaves open only what the
checks find. -/
theorem Step.agree {c c₁ c₂ : Config S V X K} {w₁ w₂ : List (Obs Op V X)} {stop : Bool}
    (h₁ : Step L c w₁ c₁) (h₂ : Step L c w₂ c₂) (hwait : ∀ kind k, c.control ≠ .wait kind k)
    (hw₁ : ∀ b, .check b ∈ w₁ → b = stop) (hw₂ : ∀ b, .check b ∈ w₂ → b = stop) :
    w₁ = w₂ ∧ c₁ = c₂ := by
  cases h₁ with
  | complete => exact absurd rfl (hwait _ _)
  | resume hguard₁ =>
      cases h₂ with
      | resume hguard₂ =>
          obtain ⟨rfl, rfl⟩ := hguard₁.agree hguard₂ hw₁ hw₂
          exact ⟨rfl, rfl⟩
  | back hguard₁ =>
      cases h₂ with
      | back hguard₂ =>
          obtain ⟨rfl, rfl⟩ := hguard₁.agree hguard₂ hw₁ hw₂
          exact ⟨rfl, rfl⟩
  | _ => cases h₂ <;> grind

/-- Once a check has found a stop, every later one does; `stop` tells whether
one has. -/
def StopStays : Bool → List (Obs Op V X) → Prop
  | _, [] => True
  | stop, .check b :: w => (stop = true → b = true) ∧ StopStays b w
  | stop, .start _ :: w => StopStays stop w
  | stop, .result _ :: w => StopStays stop w

/-- No program catches the exception that a stop request throws into it. -/
structure Language.Transparent (L : Language S Op V X K) : Prop where
  op : ∀ {s o k}, L.code s = .op o k → L.code (k (.error L.stopped)) = .throws L.stopped
  call : ∀ {s kind child k}, L.code s = .call kind child k →
    L.code (k (.error L.stopped)) = .throws L.stopped

/-- The same programs, none of which looks for a stop request. -/
def Language.unchecked (L : Language S Op V X K) : Language S Op V X K :=
  { L with checks := fun _ => false }

def Obs.isCheck : Obs Op V X → Bool
  | .check _ => true
  | _ => false

def Obs.findsStop : Obs Op V X → Bool
  | .check stop => stop
  | _ => false

theorem stopStays_append {w w' : List (Obs Op V X)} {stop : Bool}
    (h : StopStays stop (w ++ w')) :
    StopStays stop w ∧ StopStays (stop || w.any Obs.findsStop) w' := by
  induction w generalizing stop with
  | nil => exact ⟨trivial, by simpa using h⟩
  | cons o w ih =>
      cases o with
      | start => exact ih h
      | result => exact ih h
      | check b =>
          obtain ⟨hb, hrest⟩ := h
          obtain ⟨hw, hw'⟩ := ih hrest
          refine ⟨⟨hb, hw⟩, ?_⟩
          cases stop with
          | false => simpa [Obs.findsStop] using hw'
          | true =>
              obtain rfl := hb rfl
              simpa using hw'

theorem StopStays.append {w w' : List (Obs Op V X)} {stop : Bool} (h : StopStays stop w)
    (h' : StopStays (stop || w.any Obs.findsStop) w') : StopStays stop (w ++ w') := by
  induction w generalizing stop with
  | nil => simpa using h'
  | cons o w ih =>
      cases o with
      | start => exact ih h h'
      | result => exact ih h h'
      | check b =>
          refine ⟨h.1, ih h.2 ?_⟩
          cases stop with
          | false => simpa [Obs.findsStop] using h'
          | true =>
              obtain rfl := h.1 rfl
              simpa using h'

/-- Checks that all find the same may follow whatever was found before, if that
was not a stop where they find none. -/
theorem stopStays_of_checks {w : List (Obs Op V X)} {stop found : Bool}
    (hw : ∀ b, .check b ∈ w → b = stop) (hfound : found = true → stop = true) :
    StopStays found w := by
  induction w generalizing found with
  | nil => trivial
  | cons o w ih =>
      have hrest : ∀ b, .check b ∈ w → b = stop := fun b hb => hw b (List.mem_cons_of_mem _ hb)
      cases o with
      | start => exact ih hrest hfound
      | result => exact ih hrest hfound
      | check b =>
          obtain rfl := hw b (by simp)
          exact ⟨hfound, ih hrest id⟩

theorem stopStays_of_none {w : List (Obs Op V X)} (h : w.any Obs.findsStop = false) :
    StopStays false w := by
  have hchecks : ∀ b, .check b ∈ w → b = false := by
    intro b hb
    simpa [Obs.findsStop] using List.any_eq_false.mp h _ hb
  exact stopStays_of_checks hchecks id

theorem StopStays.check_eq_true {w : List (Obs Op V X)} {b : Bool} (h : StopStays true w)
    (hb : .check b ∈ w) : b = true := by
  induction w with
  | nil => simp at hb
  | cons o w ih =>
      cases o with
      | start => exact ih h (by simpa using hb)
      | result => exact ih h (by simpa using hb)
      | check b' =>
          obtain rfl := h.1 rfl
          rcases List.mem_cons.mp hb with heq | hb
          · simpa using heq
          · exact ih h.2 hb

theorem Step.check_eq_any {c c' : Config S V X K} {w : List (Obs Op V X)} {b : Bool}
    (h : Step L c w c') (hb : .check b ∈ w) : b = w.any Obs.findsStop := by
  cases h with
  | resume hguard => cases hguard <;> simp_all [Obs.findsStop]
  | back hguard => cases hguard <;> simp_all [Obs.findsStop]
  | _ => simp_all [Obs.findsStop]

/-- The observations end with the checks that find a stop: after the first of
them nothing is started and no result is seen. -/
def EndsAtStop (w : List (Obs Op V X)) : Prop :=
  ∃ w₀ n, w = w₀ ++ List.replicate n (.check true) ∧ ∀ o ∈ w₀, o.findsStop = false

theorem endsAtStop_of_forall {w : List (Obs Op V X)} (h : w.any Obs.findsStop = false) :
    EndsAtStop w :=
  ⟨w, 0, by simp, by simpa using h⟩

theorem EndsAtStop.prepend {w w' : List (Obs Op V X)} (hw : w.any Obs.findsStop = false)
    (h : EndsAtStop w') : EndsAtStop (w ++ w') := by
  obtain ⟨w₀, n, rfl, hw₀⟩ := h
  refine ⟨w ++ w₀, n, by simp, ?_⟩
  intro o ho
  rcases List.mem_append.mp ho with ho | ho
  · simpa using List.any_eq_false.mp hw o ho
  · exact hw₀ o ho

theorem Guarded.stops {kind : K} {seen w : List (Obs Op V X)} {r r' : Except X V}
    (h : Guarded L kind seen r w r') (hseen : seen.any Obs.findsStop = false) :
    w.any Obs.findsStop = false ∧ r' = r ∨
      w = [.check true] ∧ r' = .error L.stopped := by
  cases h with
  | skip => exact .inl ⟨hseen, rfl⟩
  | pass => exact .inl ⟨by simpa [Obs.findsStop] using hseen, rfl⟩
  | stop => exact .inr ⟨rfl, rfl⟩

/-- Every caller and every program that waits lets the stop through. -/
structure Config.Transparent (L : Language S Op V X K) (c : Config S V X K) : Prop where
  callers : ∀ caller ∈ c.callers, L.code (caller.2 (.error L.stopped)) = .throws L.stopped
  waits : ∀ kind k, c.control = .wait kind k →
    L.code (k (.error L.stopped)) = .throws L.stopped
  woken : ∀ kind k r, c.control = .woken kind k r →
    L.code (k (.error L.stopped)) = .throws L.stopped

/-- The machine has come to a program that throws the stop, or ends with it. -/
def Control.Stopping (L : Language S Op V X K) : Control S V X K → Prop
  | .run _ s => L.code s = .throws L.stopped
  | .finish r => r = .error L.stopped
  | _ => False

theorem Step.transparent (hL : L.Transparent) {c c' : Config S V X K} {w : List (Obs Op V X)}
    (h : Step L c w c') (hc : c.Transparent L) : c'.Transparent L := by
  cases h with
  | op hcode =>
      refine ⟨hc.callers, ?_, by simp⟩
      rintro _ _ ⟨⟩
      exact hL.op hcode
  | complete =>
      refine ⟨hc.callers, by simp, ?_⟩
      rintro _ _ _ ⟨⟩
      exact hc.waits _ _ rfl
  | call hcode =>
      refine ⟨?_, by simp, by simp⟩
      intro caller hcaller
      rcases List.mem_cons.mp hcaller with rfl | hcaller
      · exact hL.call hcode
      · exact hc.callers caller hcaller
  | back => exact ⟨fun caller hcaller => hc.callers caller (.tail _ hcaller), by simp, by simp⟩
  | _ => exact ⟨hc.callers, by simp, by simp⟩

theorem Step.stops {c c' : Config S V X K} {w : List (Obs Op V X)} (h : Step L c w c')
    (hc : c.Transparent L) (hfound : w.any Obs.findsStop = true) :
    w = [.check true] ∧ c'.control.Stopping L := by
  have hthrown : ∀ {kind seen r r' w}, Guarded L kind seen r w r' →
      seen.any Obs.findsStop = false → w.any Obs.findsStop = true →
        w = [.check true] ∧ r' = .error L.stopped := by
    intro kind seen r r' w hguard hseen hany
    rcases hguard.stops hseen with ⟨hnone, -⟩ | hstop
    · exact absurd (hnone.symm.trans hany) (by simp)
    · exact hstop
  cases h with
  | resume hguard =>
      obtain ⟨rfl, rfl⟩ := hthrown hguard rfl hfound
      exact ⟨rfl, hc.woken _ _ _ rfl⟩
  | back hguard =>
      obtain ⟨rfl, rfl⟩ := hthrown hguard rfl hfound
      exact ⟨rfl, hc.callers _ (.head _)⟩
  | stop => exact ⟨rfl, rfl⟩
  | _ => simp [Obs.findsStop] at hfound

theorem Step.stopping {c c' : Config S V X K} {w : List (Obs Op V X)} (h : Step L c w c')
    (hc : c.Transparent L) (hstopping : c.control.Stopping L) (hstays : StopStays true w) :
    c'.control.Stopping L ∧ ∃ n, w = List.replicate n (.check true) := by
  cases h with
  | ret hcode | op hcode | call hcode => simp [Control.Stopping, hcode] at hstopping
  | throws hcode =>
      rw [Control.Stopping, hcode] at hstopping
      obtain rfl := Act.throws.inj hstopping
      exact ⟨rfl, 0, rfl⟩
  | back hguard =>
      obtain rfl := hstopping
      have hcaller := hc.callers _ (.head _)
      cases hguard with
      | skip => exact ⟨hcaller, 0, rfl⟩
      | pass => exact absurd (hstays.1 rfl) (by simp)
      | stop => exact ⟨hcaller, 1, rfl⟩
  | _ => exact hstopping.elim

theorem Steps.stopping (hL : L.Transparent) {c c' : Config S V X K} {w : List (Obs Op V X)}
    (h : Steps L c w c') (hc : c.Transparent L) (hstopping : c.control.Stopping L)
    (hstays : StopStays true w) :
    c'.Transparent L ∧ c'.control.Stopping L ∧ ∃ n, w = List.replicate n (.check true) := by
  induction h with
  | refl => exact ⟨hc, hstopping, 0, rfl⟩
  | head hstep _ ih =>
      obtain ⟨hw, hw'⟩ := stopStays_append hstays
      obtain ⟨hstopping₁, n, rfl⟩ := hstep.stopping hc hstopping hw
      obtain ⟨hc', hstopping', m, rfl⟩ := ih (hstep.transparent hL hc) hstopping₁ hw'
      exact ⟨hc', hstopping', n + m, List.replicate_append_replicate⟩

/-- When no program catches the stop, the first check that finds it is the end of
the programs: nothing but checks of the callers follows. -/
theorem Steps.endsAtStop (hL : L.Transparent) {c c' : Config S V X K} {w : List (Obs Op V X)}
    (h : Steps L c w c') (hc : c.Transparent L) (hstays : StopStays false w) :
    c'.Transparent L ∧ EndsAtStop w ∧
      (w.any Obs.findsStop = true → c'.control.Stopping L) := by
  induction h with
  | refl => exact ⟨hc, endsAtStop_of_forall rfl, by simp⟩
  | @head c c₁ c' w w' hstep hsteps ih =>
      obtain ⟨-, hw'⟩ := stopStays_append hstays
      have hc₁ := hstep.transparent hL hc
      cases hfound : w.any Obs.findsStop with
      | false =>
          rw [hfound] at hw'
          obtain ⟨hc', hends, hstopping⟩ := ih hc₁ hw'
          refine ⟨hc', hends.prepend hfound, fun hany => hstopping ?_⟩
          simpa [hfound] using hany
      | true =>
          obtain ⟨rfl, hstopping₁⟩ := hstep.stops hc hfound
          obtain ⟨hc', hstopping, n, rfl⟩ := hsteps.stopping hL hc₁ hstopping₁ hw'
          exact ⟨hc', ⟨[], n + 1, by simp [List.replicate_succ], by simp⟩, fun _ => hstopping⟩

/-- The steps that are left once the stop is thrown: every caller throws it on. -/
def Config.unwinding (c : Config S V X K) : Nat :=
  2 * c.callers.length + match c.control with
    | .finish _ => 0
    | _ => 1

theorem Config.exists_unwinding_step {c : Config S V X K} (hstopping : c.control.Stopping L)
    (hc : c.Transparent L) : c = ⟨.finish (.error L.stopped), []⟩ ∨
      ∃ w c', Step L c w c' ∧ StopStays true w ∧ c'.unwinding < c.unwinding := by
  obtain ⟨control, callers⟩ := c
  cases control with
  | run kind s => exact .inr ⟨[], _, .throws hstopping, trivial, by simp [Config.unwinding]⟩
  | finish r =>
      obtain rfl := hstopping
      cases callers with
      | nil => exact .inl rfl
      | cons caller cs =>
          obtain ⟨kind, k⟩ := caller
          have hless : ∀ s, (⟨.run kind s, cs⟩ : Config S V X K).unwinding <
              (⟨.finish (.error L.stopped), (kind, k) :: cs⟩ : Config S V X K).unwinding := by
            intro s
            simp only [Config.unwinding, List.length_cons]
            omega
          right
          cases hkind : L.checks kind with
          | false => exact ⟨[], _, .back (.skip hkind), trivial, hless _⟩
          | true => exact ⟨[.check true], _, .back (.stop hkind), ⟨fun _ => rfl, trivial⟩, hless _⟩
  | _ => exact hstopping.elim

/-- What is seen besides the checks. -/
def besidesChecks (w : List (Obs Op V X)) : List (Obs Op V X) := w.filter fun o => !o.isCheck

theorem besidesChecks_append (w w' : List (Obs Op V X)) :
    besidesChecks (w ++ w') = besidesChecks w ++ besidesChecks w' :=
  List.filter_append ..

theorem besidesChecks_any (w : List (Obs Op V X)) :
    (besidesChecks w).any Obs.findsStop = false := by
  apply List.any_eq_false.mpr
  intro o ho
  have hcheck := (List.mem_filter.mp ho).2
  cases o <;> simp_all [Obs.isCheck, Obs.findsStop]

theorem Guarded.unchecked {kind : K} {seen w : List (Obs Op V X)} {r r' : Except X V}
    (h : Guarded L kind seen r w r') (hnone : w.any Obs.findsStop = false) :
    Guarded L.unchecked kind (besidesChecks seen) r (besidesChecks w) r' := by
  cases h with
  | skip => exact .skip rfl
  | pass => exact .skip rfl
  | stop => simp [Obs.findsStop] at hnone

theorem Eval.unchecked {p : Point S K} {w : List (Obs Op V X)} {out : Except X V}
    (h : Eval L p w out) (hnone : w.any Obs.findsStop = false) :
    Eval L.unchecked p (besidesChecks w) out := by
  induction h with
  | skip _ _ ih => exact .skip rfl (ih hnone)
  | pass _ _ ih =>
      rw [List.any_cons, Bool.or_eq_false_iff] at hnone
      exact .skip rfl (ih hnone.2)
  | stop => simp [Obs.findsStop] at hnone
  | ret hcode => exact .ret hcode
  | throws hcode => exact .throws hcode
  | @op kind s o k r r' w w' out hcode hguard hrun ih =>
      rw [List.any_cons, List.any_append, Bool.or_eq_false_iff, Bool.or_eq_false_iff] at hnone
      obtain ⟨-, hw, hw'⟩ := hnone
      have htail := besidesChecks_append w w'
      change Eval L.unchecked _ (.start o :: besidesChecks (w ++ w')) _
      rw [htail]
      exact .op (L := L.unchecked) hcode (hguard.unchecked hw) (ih hw')
  | call hcode hchild hguard hrun ihchild ih =>
      rw [List.any_append, List.any_append, Bool.or_eq_false_iff, Bool.or_eq_false_iff] at hnone
      obtain ⟨hw₁, hw₂, hw₃⟩ := hnone
      rw [besidesChecks_append, besidesChecks_append]
      exact .call (L := L.unchecked) hcode (ihchild hw₁) (hguard.unchecked hw₂) (ih hw₃)

theorem Guarded.exists_pass (kind : K) (seen : List (Obs Op V X)) (r : Except X V)
    (hseen : seen.any Obs.findsStop = false) (hchecks : besidesChecks seen = seen) :
    ∃ w, Guarded L kind seen r w r ∧ w.any Obs.findsStop = false ∧ besidesChecks w = seen := by
  cases hkind : L.checks kind with
  | false => exact ⟨seen, .skip hkind, hseen, hchecks⟩
  | true =>
      exact ⟨.check false :: seen, .pass hkind, by simpa [Obs.findsStop] using hseen, hchecks⟩

theorem Guarded.of_unchecked {kind : K} {seen w : List (Obs Op V X)} {r r' : Except X V}
    (h : Guarded L.unchecked kind seen r w r') : w = seen ∧ r' = r := by
  cases h with
  | skip => exact ⟨rfl, rfl⟩
  | pass hkind => simp [Language.unchecked] at hkind
  | stop hkind => simp [Language.unchecked] at hkind

theorem Eval.exists_checked {p : Point S K} {w : List (Obs Op V X)} {out : Except X V}
    (h : Eval L.unchecked p w out) :
    ∃ w', Eval L p w' out ∧ w'.any Obs.findsStop = false ∧ besidesChecks w' = w := by
  induction h with
  | @skip kind s w out _ _ ih =>
      obtain ⟨w', heval, hnone, rfl⟩ := ih
      cases hkind : L.checks kind with
      | false => exact ⟨w', .skip hkind heval, hnone, rfl⟩
      | true =>
          exact ⟨.check false :: w', .pass hkind heval, by simpa [Obs.findsStop] using hnone, rfl⟩
  | pass hkind => simp [Language.unchecked] at hkind
  | stop hkind => simp [Language.unchecked] at hkind
  | ret hcode => exact ⟨[], .ret hcode, rfl, rfl⟩
  | throws hcode => exact ⟨[], .throws hcode, rfl, rfl⟩
  | @op kind s o k r r' w w' out hcode hguard hrun ih =>
      obtain ⟨rfl, rfl⟩ := hguard.of_unchecked
      obtain ⟨v', heval, hnone, rfl⟩ := ih
      obtain ⟨v, hpass, hv, hseen⟩ := Guarded.exists_pass (L := L) kind [.result r'] r' rfl rfl
      refine ⟨.start o :: (v ++ v'), .op hcode hpass heval, ?_, ?_⟩
      · simp [Obs.findsStop, hv, hnone]
      · change .start o :: besidesChecks (v ++ v') = _
        rw [besidesChecks_append, hseen]
  | @call kind s kind' child k r r' w₁ w₂ w₃ out hcode hchild hguard hrun ihchild ih =>
      obtain ⟨rfl, rfl⟩ := hguard.of_unchecked
      obtain ⟨v₁, hchild', hv₁, rfl⟩ := ihchild
      obtain ⟨v₃, hrun', hv₃, rfl⟩ := ih
      obtain ⟨v₂, hpass, hv₂, hseen⟩ := Guarded.exists_pass (L := L) kind [] r' rfl rfl
      refine ⟨v₁ ++ (v₂ ++ v₃), .call hcode hchild' hpass hrun', ?_, ?_⟩
      · simp [hv₁, hv₂, hv₃]
      · rw [besidesChecks_append, besidesChecks_append, hseen]

/-- Where no stop is found, looking for one makes no difference. -/
theorem eval_unchecked_iff {p : Point S K} {w : List (Obs Op V X)} {out : Except X V} :
    Eval L.unchecked p w out ↔
      ∃ w', Eval L p w' out ∧ w'.any Obs.findsStop = false ∧ besidesChecks w' = w := by
  constructor
  · exact Eval.exists_checked
  · rintro ⟨w', heval, hnone, rfl⟩
    exact heval.unchecked hnone

end Capy.DirectStyle
