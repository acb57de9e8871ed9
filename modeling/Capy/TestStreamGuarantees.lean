import Capy.TestStreamSound

namespace Capy.TestStream

open Buffers
open CallStack
open Join (ErrorCode Results)

/-- The sides that an activation still has to wake. -/
def Pc.wakes (e : Bool) : Pc → Bool
  | .posting rest => rest.contains e
  | _ => false

theorem wakes_pending {s : Pair} {k : Nat → Nat} (h : Sound s k) {es : List Bool} {e : Bool}
    (he : e ∈ es) : ((wakes s es).1.sides e).pendingCont = none ∨
      ∃ pc, (wakes s es).2 = some pc ∧ pc.wakes e = true := by
  induction es generalizing s with
  | nil => exact absurd he List.not_mem_nil
  | cons e' rest ih =>
      -- the sides after the first one: the rest of the wakes keeps it forgotten
      have hrest : ∀ s', Sound s' k → (e = e' → (s'.sides e).pendingCont = none) →
          ((wakes s' rest).1.sides e).pendingCont = none ∨
            ∃ pc, (wakes s' rest).2 = some pc ∧ pc.wakes e = true := by
        intro s' hs' hnone
        rcases List.mem_cons.mp he with heq | hmem
        · left
          rcases (hs'.woke rest).cont e with hcont | hcont
          · exact hcont.trans (hnone heq)
          · exact hcont
        · exact ih hs' hmem
      rcases wake_cases h e' with ⟨hnone, heq⟩ | ⟨r, hr, hc, heq⟩ | ⟨r, hr, hc, heq⟩
      · simp only [wakes, heq, Bool.false_eq_true, if_false]
        exact hrest s h fun hee => hee ▸ hnone
      · simp only [wakes, heq, Bool.false_eq_true, if_false]
        refine hrest _ (h.unpark e') ?_
        rintro rfl
        rw [unpark_pendingCont, if_pos rfl]
      · simp only [wakes, heq, if_true]
        rcases List.mem_cons.mp he with rfl | hmem
        · left
          rw [updateRead_sides, unpark_pendingCont, if_pos rfl]
        · exact .inr ⟨_, rfl, by simpa [Pc.wakes] using hmem⟩

/-- What holds when an end has at most one outstanding read; `W e` tells that some
call still has to wake side `e`. -/
structure Attended (s : Pair) (W : Bool → Prop) : Prop where
  waiting : ∀ r, (s.reads r).phase = .suspended →
    (s.reads r).claimed = true ∨ (s.sides (s.reads r).side).pendingCont = some r
  quiet : ∀ e, (s.sides e).pendingCont ≠ none → s.Quiet e ∨ W e

section Attended

variable {s s' : Pair} {k : Nat → Nat} {W W' : Bool → Prop}

theorem Attended.congr (h : Attended s W) (hreads : s'.reads = s.reads)
    (hcont : ∀ e, (s'.sides e).pendingCont = (s.sides e).pendingCont)
    (hquiet : ∀ e, s.Quiet e ∨ W e → s'.Quiet e ∨ W' e) : Attended s' W' where
  waiting r := by
    rw [hreads, hcont]
    exact h.waiting r
  quiet e he := by
    rw [hcont] at he
    exact hquiet e (h.quiet e he)

theorem Attended.updateRead (h : Attended s W) (r : Nat) (g : Read → Read)
    (hwaiting : (g (s.reads r)).phase = .suspended → (g (s.reads r)).claimed = true ∨
      (s.sides (g (s.reads r)).side).pendingCont = some r) :
    Attended (s.updateRead r g) W where
  waiting v := by
    rcases eq_or_ne v r with rfl | hne
    · rw [updateRead_self]
      exact hwaiting
    · rw [updateRead_of_ne _ _ _ hne]
      exact h.waiting v
  quiet := h.quiet

theorem Attended.drop (h : Attended s W) {r : Nat}
    (hreads : ∀ v, v ≠ r → s'.reads v = s.reads v)
    (hr : (s'.reads r).phase = .done ∨ (s'.reads r).phase = .destroyed)
    (hcont : ∀ e, (s'.sides e).pendingCont = (s.sides e).pendingCont ∨
      (s.sides e).pendingCont = some r ∧ (s'.sides e).pendingCont = none)
    (hquiet : ∀ e, s.Quiet e ∨ W e → s'.Quiet e ∨ W' e) : Attended s' W' where
  waiting v hv := by
    rcases eq_or_ne v r with rfl | hne
    · rcases hr with hr | hr <;> simp [hr] at hv
    · rw [hreads v hne] at hv ⊢
      refine (h.waiting v hv).imp_right fun hcontv => ?_
      rcases hcont (s.reads v).side with heq | ⟨hcontr, -⟩
      · exact heq.trans hcontv
      · exact absurd (Option.some.inj (hcontv.symm.trans hcontr)) hne
  quiet e he := by
    rcases hcont e with heq | ⟨-, hnone⟩
    · rw [heq] at he
      exact hquiet e (h.quiet e he)
    · exact absurd hnone he

theorem Attended.wakes {es : List Bool} (h : Attended s fun e => e ∈ es ∨ W e)
    (hs : Sound s k) : Attended (wakes s es).1 fun e =>
      (∃ pc, (TestStream.wakes s es).2 = some pc ∧ pc.wakes e = true) ∨ W e := by
  have hwoke := hs.woke es
  refine ⟨?_, ?_⟩
  · intro r hr
    rw [wakes_phase] at hr
    rcases hwoke.reads r with heq | ⟨_, _, _, heq⟩
    · rw [heq]
      rcases h.waiting r hr with hclaimed | hcont
      · exact .inl hclaimed
      · rcases hwoke.kept _ r hcont with hkept | hclaimed
        · exact .inr hkept
        · exact .inl (heq ▸ hclaimed)
    · rw [heq]
      exact .inl rfl
  · intro e he
    have hcont : (s.sides e).pendingCont ≠ none := by
      rcases hwoke.cont e with heq | hnone
      · exact heq ▸ he
      · exact absurd hnone he
    rcases h.quiet e hcont with ⟨hbuf, heof, hopen⟩ | hmem | hW
    · exact .inl ⟨(hwoke.buf e).trans hbuf, (hwoke.eof e).trans heof, hwoke.closed.trans hopen⟩
    · rcases wakes_pending hs hmem with hnone | hpc
      · exact absurd hnone he
      · exact .inr (.inl hpc)
    · exact .inr (.inr hW)

/-- The sides that a call has to wake after the step it has made. -/
def Pending (q : Option Pc) (e : Bool) : Prop := ∃ pc, q = some pc ∧ pc.wakes e = true

theorem Attended.closePair (h : Attended s W') (hs : Sound { s with closed := true } k) :
    Attended (closePair s).1 fun e => Pending (TestStream.closePair s).2 e ∨ W e := by
  refine Attended.wakes (s := { s with closed := true }) ?_ hs
  refine h.congr rfl (fun _ => rfl) fun e _ => .inr (.inl ?_)
  cases e <;> simp

theorem unlink_pendingCont_cases
    (hsame : ∀ e, (s.sides e).pendingClaimed = (s.sides e).pendingCont) (r : Nat) (e : Bool) :
    ((s.unlink r).sides e).pendingCont = (s.sides e).pendingCont ∨
      (s.sides e).pendingCont = some r ∧ ((s.unlink r).sides e).pendingCont = none := by
  unfold Pair.unlink
  split_ifs with hlinked
  · rw [unpark_pendingCont]
    split_ifs with he
    · exact .inr ⟨he ▸ (hsame _).symm.trans hlinked.2, rfl⟩
    · exact .inl rfl
  · exact .inl rfl

theorem unlink_quiet (s : Pair) (r : Nat) (e : Bool) (h : s.Quiet e) : (s.unlink r).Quiet e := by
  rcases unlink_eq s r with heq | heq
  · rw [heq]
    exact ⟨(unpark_buf _ _ _).trans h.1, (unpark_eof _ _ _).trans h.2.1, h.2.2⟩
  · rwa [heq]

theorem Attended.finish (h : Attended s W) (r : Nat) : Attended (s.finish r) W := by
  refine h.drop (r := r) ?_ (.inl ?_) (fun _ => .inl rfl) fun _ hq => hq
  · intro v hv
    rw [finish_reads, updateRead_of_ne _ _ _ hv]
  · rw [finish_phase, if_pos rfl]

theorem Attended.completeRead (h : Attended s W) (r : Nat) (late : Bool) (results : Results Nat)
    (bytes : List UInt8) (failed : Bool) :
    Attended (completeRead s r late results bytes failed) W :=
  (h.finish r).congr rfl (fun _ => rfl) fun _ hq => hq

theorem Attended.mono (h : Attended s W) (hW : ∀ e, W e → W' e) : Attended s W' :=
  h.congr rfl (fun _ => rfl) fun e hq => hq.imp_right (hW e)

theorem Attended.completeCanceled (h : Attended s W)
    (hsame : ∀ e, (s.sides e).pendingClaimed = (s.sides e).pendingCont) (r : Nat) (late : Bool)
    (results : Results Nat) :
    Attended (TestStream.completeRead (s.unlink r) r late results [] false) W := by
  refine h.drop (r := r) ?_ (.inl ?_) (unlink_pendingCont_cases hsame r) ?_
  · intro v hv
    rw [completeRead_reads, finish_reads, updateRead_of_ne _ _ _ hv, unlink_reads]
  · rw [completeRead_phase, if_pos rfl]
  · exact fun e hq => hq.imp_left (unlink_quiet s r e)

theorem takeBytes_quiet (s : Pair) (r : Nat) (late : Bool) (e : Bool) (h : s.Quiet e) :
    (takeBytes s r late).Quiet e := by
  refine ⟨?_, ?_, h.2.2⟩
  · rw [takeBytes_sides]
    rcases eq_or_ne e (s.reads r).side with rfl | hne
    · rw [updateSide_self, h.1]
      exact List.drop_nil
    · rw [updateSide_of_ne _ _ _ hne]
      exact h.1
  · rw [takeBytes_sides]
    exact (updateSide_keeps s _ _ Half.eof (by simp) e).trans h.2.1

theorem Attended.wakeSide (h : Attended s W) (e : Bool) (hreads : s'.reads = s.reads)
    (hcont : ∀ e, (s'.sides e).pendingCont = (s.sides e).pendingCont)
    (hother : ∀ e', e' ≠ e → s'.sides e' = s.sides e') (hclosed : s'.closed = s.closed)
    (hs : Sound s' k) :
    Attended (TestStream.wakes s' [e]).1 fun e' =>
      Pending (TestStream.wakes s' [e]).2 e' ∨ W e' := by
  refine Attended.wakes (h.congr hreads hcont fun e' hq => ?_) hs
  rcases eq_or_ne e' e with rfl | hne
  · exact .inr (.inl List.mem_cons_self)
  · refine hq.imp ?_ .inr
    rintro ⟨hbuf, heof, hopen⟩
    exact ⟨hother e' hne ▸ hbuf, hother e' hne ▸ heof, hclosed.trans hopen⟩

theorem Attended.record (h : Attended s W) (x : Record) : Attended (s.record x) W :=
  h.congr rfl (fun _ => rfl) fun _ hq => hq

theorem Attended.append (h : Attended s W) {e : Bool} {sv : List UInt8}
    (hs : Sound (s.updateSide (!e) fun side => { side with buf := side.buf ++ sv }) k) :
    Attended (append s e sv).1 fun e' => Pending (TestStream.append s e sv).2 e' ∨ W e' := by
  refine h.wakeSide (!e) rfl ?_ ?_ rfl hs
  · exact updateSide_keeps s (!e) (fun side => { side with buf := side.buf ++ sv })
      Half.pendingCont fun _ => rfl
  · intro e' hne
    exact updateSide_of_ne s (!e) (fun side => { side with buf := side.buf ++ sv }) hne

theorem Attended.close (h : Attended s W) (hs : Sound s k) (e : Bool) :
    Attended (close s e).1 fun e' => Pending (TestStream.close s e).2 e' ∨ W e' := by
  refine h.wakeSide (!e) rfl ?_ (fun e' hne => updateSide_of_ne _ _ _ hne) rfl
    (hs.updateSide (!e) (fun side => { side with eof := true }) fun _ => ⟨rfl, rfl, rfl⟩)
  exact updateSide_keeps s (!e) (fun side => { side with eof := true })
    Half.pendingCont fun _ => rfl

theorem Resumed.attended {r : Nat} {late : Bool} {reply : Fuse.Reply} {out : Pair × Option Pc}
    (hout : Resumed s r late reply out) (h : Attended s W) (hs : Sound s k)
    (hr : (s.reads r).canceled = false → ∀ e, (s.sides e).pendingCont ≠ some r)
    (hlate : late = true → s.closed = true) :
    Attended out.1 fun e => Pending out.2 e ∨ W e := by
  have hfinish := h.finish r
  cases hout with
  | empty _ | eof _ _ _ => exact (h.completeRead r late _ _ _).mono fun _ => Or.inr
  | canceled _ _ =>
      exact (h.completeCanceled hs.same r late _).mono fun _ => Or.inr
  | bytes _ _ _ _ _ =>
      refine Attended.mono (W := W) ?_ fun _ => Or.inr
      refine hfinish.congr rfl ?_ ?_
      · rw [takeBytes_sides]
        exact updateSide_keeps s _ _ Half.pendingCont (by simp)
      · exact fun e hq => hq.imp_left (takeBytes_quiet s r late e)
  | @failure ec _ hcanceled hopen hec =>
      have hclosed : Attended { s with closed := true } fun _ => True :=
        h.congr rfl (fun _ => rfl) fun _ _ => .inr trivial
      exact (hclosed.completeRead r late ⟨ec, 0⟩ [] true).closePair
        (hs.completeFailure (hr hcanceled) hopen hlate)
  | thrown _ hcanceled _ =>
      exact (hfinish.record .thrown).closePair (hs.finish (hr hcanceled)).thrown

theorem Wrote.attended {e : Bool} {buffers : List Buffer} {mem : Nat → UInt8} {stop : Bool}
    {out : Pair × Option Pc} (hout : Wrote s e buffers mem stop out) (h : Attended s W)
    (hs : Sound s k) : Attended out.1 fun e => Pending out.2 e ∨ W e := by
  cases hout with
  | empty _ | canceled _ _ | eof _ _ => exact (h.record _).mono fun _ => Or.inr
  | bytes _ hopen => exact (h.record _).append (hs.write hopen)
  | failure _ hopen hec => exact (h.record _).closePair (hs.writeFailure hopen hec)
  | thrown _ => exact (h.record .thrown).closePair hs.thrown

theorem Attended.updateFlags (h : Attended s W) (r : Nat) (g : Read → Read)
    (hg : ∀ a, (g a).phase = a.phase ∧ (g a).side = a.side ∧
      (a.claimed = true → (g a).claimed = true)) : Attended (s.updateRead r g) W := by
  obtain ⟨hphase, hside, hclaimed⟩ := hg (s.reads r)
  refine h.updateRead r g ?_
  rw [hphase, hside]
  exact fun hp => (h.waiting r hp).imp_left hclaimed

theorem Attended.callbackReturns (h : Attended s W) (r : Nat) (inConstructor : Bool) :
    Attended (callbackReturns s r inConstructor) W := by
  unfold TestStream.callbackReturns
  split_ifs
  · exact h.updateFlags r _ fun _ => ⟨rfl, rfl, id⟩
  · exact h

theorem Step.attended {pc : Pc} {reply : Fuse.Reply} {out : Pair × Option Pc}
    (hstep : Step s reply pc out)
    (h : Attended s fun e => pc.wakes e = true ∨ W e)
    (hs : Sound s fun r => k r + pc.claims r)
    (hresuming : ∀ r, pc.resumes r ≤ if (s.reads r).phase = .resuming then 1 else 0) :
    Attended out.1 fun e => Pending out.2 e ∨ W e := by
  have hW : (∀ e, pc.wakes e = false) → Attended s W := fun hpc =>
    h.mono fun e he => he.resolve_left (by simp [hpc e])
  cases hstep with
  | @awaitResume r _ hout =>
      have hphase := phase_of_resumes (hresuming r)
      have hflags := (hW fun _ => rfl).updateFlags r (fun a =>
        { a with registered := a.registered && !a.active, active := false })
        fun _ => ⟨rfl, rfl, id⟩
      refine hout.attended hflags (hs.updateFlags r _ (fun _ => rfl) ?_) ?_ (by simp)
      · intro hf
        exact absurd (hf.symm.trans hphase) (by simp)
      · intro hcanceled e hp
        rw [updateRead_self] at hcanceled
        exact absurd ((hs.canceled_of_resuming hphase hp).symm.trans hcanceled) (by simp)
  | cancelLost _ | cancelReturns =>
      exact ((hW fun _ => rfl).callbackReturns _ _).mono fun _ => Or.inr
  | @cancelClaim r _ _ =>
      dsimp only
      refine Attended.mono (W := W) ?_ fun _ => Or.inr
      exact (hW fun _ => rfl).updateFlags r _ (by simp)
  | @cancelPost r _ =>
      dsimp only
      refine Attended.mono (W := W) ?_ fun _ => Or.inr
      exact (hW fun _ => rfl).updateFlags r _ (by simp)
  | @posted rest => 
      refine Attended.wakes (h.mono fun e he => he.imp_left fun hpc => ?_) hs
      simpa [Pc.wakes] using hpc

theorem Attended.start (h : Attended s W) {r : Nat} (hr : (s.reads r).phase = .fresh) (e : Bool)
    (buffers : List Buffer) : Attended (s.start r e buffers) W := by
  have hupdate : Attended (s.updateRead r fun a => { a with side := e, buffers := buffers }) W :=
    h.updateRead r _ (by simp [hr])
  exact ⟨hupdate.waiting, hupdate.quiet⟩

theorem Attended.park (h : Attended s W) {r : Nat} {e : Bool} (race : Bool)
    (hr : (s.reads r).side = e) (hquiet : s.Quiet e)
    (hok : ∀ v, v ≠ r → (s.reads v).phase = .suspended → (s.reads v).side ≠ e) :
    Attended (s.park r e race) W := by
  have hother : ∀ v, v ≠ r → (s.park r e race).reads v = s.reads v := by
    intro v hv
    rw [Pair.park, updateSide_reads, updateRead_of_ne _ _ _ hv]
  refine ⟨?_, ?_⟩
  · intro v hv
    rcases eq_or_ne v r with rfl | hne
    · right
      simp [Pair.park, hr]
    · rw [hother v hne] at hv ⊢
      refine (h.waiting v hv).imp_right fun hcont => ?_
      rw [Pair.park, updateSide_of_ne _ _ _ (hok v hne hv)]
      exact hcont
  · intro e' he'
    rcases eq_or_ne e' e with rfl | hne
    · left
      simpa [Pair.Quiet, Pair.park] using hquiet
    · rw [Pair.park, updateSide_of_ne _ _ _ hne] at he'
      simpa [Pair.Quiet, Pair.park, updateSide_of_ne _ _ _ hne] using h.quiet e' he'

theorem quiet_of_not_ready {e : Bool} {buffers : List Buffer}
    (h : awaitReady s e buffers = false) : s.Quiet e := by
  simp only [awaitReady, Bool.or_eq_false_iff, Bool.not_eq_eq_eq_not, Bool.not_false,
    List.isEmpty_iff] at h
  exact ⟨h.2, h.1.2, h.1.1.2⟩

theorem Entered.attended {a : Entry} {out : Pair × Option Pc} (henter : Entered s a out)
    (h : Attended s W) (hs : Sound s k)
    (hok : ∀ r e buffers race reply, a = .readSome r e buffers race reply →
      ∀ v, (s.reads v).phase = .suspended → (s.reads v).side ≠ e) :
    Attended out.1 fun e => Pending out.2 e ∨ W e := by
  cases henter with
  | @completes r e buffers _ _ _ hfresh hready hout =>
      refine hout.attended (h.start hfresh e buffers) (hs.start hfresh e buffers) ?_ id
      exact fun _ => hs.not_parked_of_fresh hfresh
  | @stopped r e buffers _ _ hfresh hready =>
      refine Attended.mono (W := W) ?_ fun _ => Or.inr
      refine Attended.completeCanceled ?_ ?_ r s.closed _
      · exact (h.start hfresh e buffers).updateFlags r _ (by simp)
      · exact (hs.start hfresh e buffers).same
  | @parks r e buffers race reply hfresh hready =>
      refine Attended.mono (W := W) ?_ fun _ => Or.inr
      refine (h.start hfresh e buffers).park race ?_ (quiet_of_not_ready hready) ?_
      · simp [Pair.start]
      · intro v hne hv
        rw [Pair.start, updateRead_of_ne _ _ _ hne] at hv ⊢
        exact hok r e buffers race reply rfl v hv
  | @resume r hphase hposts =>
      dsimp only
      refine Attended.mono (W := W) ?_ fun _ => Or.inr
      exact h.updateRead r _ (by simp)
  | @destroy r hphase =>
      refine Attended.mono (W := W) ?_ fun _ => Or.inr
      refine h.drop (r := r) ?_ (.inr ?_) (unlink_pendingCont_cases hs.same r) ?_
      · intro v hv
        rw [updateRead_of_ne _ _ _ hv, unlink_reads]
      · rw [updateRead_self]
      · exact fun e hq => hq.imp_left (unlink_quiet s r e)
  | writeSome hout => exact hout.attended h hs
  | provide => exact (h.record _).append (hs.provide _ _)
  | close => exact h.close hs _
  | @setMaxReadSize e n =>
      refine Attended.mono (W := W) ?_ fun _ => Or.inr
      refine h.congr rfl ?_ ?_
      · exact updateSide_keeps s e (fun side => { side with maxReadSize := n }) Half.pendingCont
          fun _ => rfl
      · refine fun e' hq => hq.imp_left fun hquiet => ?_
        obtain ⟨hbuf, heof, hopen⟩ := hquiet
        refine ⟨?_, ?_, hopen⟩
        · exact (updateSide_keeps s e (fun side => { side with maxReadSize := n }) Half.buf
            (fun _ => rfl) e').trans hbuf
        · exact (updateSide_keeps s e (fun side => { side with maxReadSize := n }) Half.eof
            (fun _ => rfl) e').trans heof
  | @requestStop r =>
      dsimp only
      exact (h.updateFlags r _ (by simp)).mono fun _ => Or.inr
  | @stopCallback r _ =>
      dsimp only
      exact (h.updateFlags r _ (by simp)).mono fun _ => Or.inr

end Attended

/-- What holds of a pair whose ends have at most one outstanding read each. -/
def Guarded (s : Pair) (fs : List (Frame Pc)) : Prop :=
  Invariant s fs ∧ Attended s fun e => ∃ f ∈ fs, f.pc.wakes e = true

end Capy.TestStream
