import Capy.TestReadWriteStream
import Capy.TestStreamSound

namespace Capy.TestStream

open Buffers
open CallStack
open Join (ErrorCode Results)
open Transfer (Reports)

/-- A read that a wake has posted and that has not completed. -/
def Read.Woken (a : Read) : Prop :=
  (a.phase = .suspended ∨ a.phase = .resuming) ∧ a.posts ≠ 0 ∧ a.canceled = false

/-- What holds of a pair whose wakes bring something and whose limits admit it. -/
structure Supplied (s : Pair) : Prop where
  woken : ∀ r, (s.reads r).Woken → ¬s.Quiet (s.reads r).side
  posted : ∀ r, (s.reads r).phase = .resuming → (s.reads r).posts ≠ 0
  sizes : ∀ r, (s.reads r).phase = .suspended ∨ (s.reads r).phase = .resuming →
    totalSize (s.reads r).buffers < sizeValues
  limits : ∀ e, (s.sides e).maxReadSize ≠ 0
  log : ∀ c ∈ s.log, Reports c.buffers c.results

section Supplied

variable {s s' : Pair} {k : Nat → Nat}

theorem Supplied.congr (h : Supplied s) (hreads : s'.reads = s.reads)
    (hquiet : ∀ e, s'.Quiet e → s.Quiet e)
    (hlimits : ∀ e, (s'.sides e).maxReadSize ≠ 0)
    (hlog : ∀ c ∈ s'.log, Reports c.buffers c.results) : Supplied s' where
  woken r := by
    rw [hreads]
    exact fun hr hq => h.woken r hr (hquiet _ hq)
  posted := by
    rw [hreads]
    exact h.posted
  sizes := by
    rw [hreads]
    exact h.sizes
  limits := hlimits
  log := hlog

theorem Supplied.updateRead (h : Supplied s) (r : Nat) (g : Read → Read)
    (hwoken : (g (s.reads r)).Woken → ¬s.Quiet (g (s.reads r)).side)
    (hposted : (g (s.reads r)).phase = .resuming → (g (s.reads r)).posts ≠ 0)
    (hsizes : (g (s.reads r)).phase = .suspended ∨ (g (s.reads r)).phase = .resuming →
      totalSize (g (s.reads r)).buffers < sizeValues) : Supplied (s.updateRead r g) where
  woken v := by
    rcases eq_or_ne v r with rfl | hne
    · rw [updateRead_self]
      exact hwoken
    · rw [updateRead_of_ne _ _ _ hne]
      exact h.woken v
  posted v := by
    rcases eq_or_ne v r with rfl | hne
    · rw [updateRead_self]
      exact hposted
    · rw [updateRead_of_ne _ _ _ hne]
      exact h.posted v
  sizes v := by
    rcases eq_or_ne v r with rfl | hne
    · rw [updateRead_self]
      exact hsizes
    · rw [updateRead_of_ne _ _ _ hne]
      exact h.sizes v
  limits := h.limits
  log := h.log

theorem Supplied.drop (h : Supplied s) (r : Nat) (g : Read → Read)
    (hphase : (g (s.reads r)).phase ≠ .suspended ∧ (g (s.reads r)).phase ≠ .resuming) :
    Supplied (s.updateRead r g) := by
  refine h.updateRead r g ?_ ?_ ?_
  · rintro ⟨hp | hp, -⟩
    · exact absurd hp hphase.1
    · exact absurd hp hphase.2
  · exact fun hp => absurd hp hphase.2
  · rintro (hp | hp)
    · exact absurd hp hphase.1
    · exact absurd hp hphase.2

theorem Supplied.finish (h : Supplied s) (r : Nat) : Supplied (s.finish r) := by
  have hdone := h.drop r (fun a => { a with phase := .done }) ⟨by simp, by simp⟩
  exact hdone.congr rfl (fun _ hq => hq) hdone.limits hdone.log

theorem Supplied.record (h : Supplied s) (x : Record)
    (hx : ∀ c, x = .completed c → Reports c.buffers c.results) : Supplied (s.record x) := by
  refine h.congr rfl (fun _ hq => hq) h.limits ?_
  intro c hc
  simp only [Pair.log, Pair.record, List.filterMap_append, List.mem_append] at hc
  rcases hc with hc | hc
  · exact h.log c hc
  · obtain ⟨x', hx', hc⟩ := List.mem_filterMap.mp hc
    rw [List.mem_singleton.mp hx'] at hc
    exact hx c (Record.eq_completed hc)

theorem Supplied.completed (h : Supplied s) {c : Completion} (hc : Reports c.buffers c.results) :
    Supplied (s.record (.completed c)) := by
  refine h.record _ ?_
  rintro c' ⟨⟩
  exact hc

theorem Supplied.completeRead (h : Supplied s) {r : Nat} {late : Bool} {results : Results Nat}
    {bytes : List UInt8} {failed : Bool} (hreports : Reports (s.reads r).buffers results) :
    Supplied (completeRead s r late results bytes failed) :=
  (h.finish r).completed hreports

theorem Supplied.wakes (h : Supplied s) (hs : Sound s k) {es : List Bool}
    (hes : ∀ e ∈ es, (s.sides e).pendingCont ≠ none → ¬s.Quiet e) :
    Supplied (wakes s es).1 := by
  have hwoke := hs.woke es
  have hquiet : ∀ e, (TestStream.wakes s es).1.Quiet e → s.Quiet e := by
    rintro e ⟨hbuf, heof, hopen⟩
    exact ⟨(hwoke.buf e).symm.trans hbuf, (hwoke.eof e).symm.trans heof,
      hwoke.closed.symm.trans hopen⟩
  refine ⟨?_, ?_, ?_, ?_, ?_⟩
  · intro r hr hq
    rcases hwoke.reads r with heq | ⟨e, he, hcont, heq⟩
    · rw [heq] at hr hq
      exact h.woken r hr (hquiet _ hq)
    · rw [heq] at hq
      have hside := (hs.parked e r hcont).side
      exact hes e he (by simp [hcont]) (hside ▸ hquiet _ hq)
  · intro r hr
    rw [wakes_phase] at hr
    have hposts := h.posted r hr
    rcases hwoke.reads r with heq | ⟨_, _, _, heq⟩
    · rw [heq]
      exact hposts
    · rw [heq]
      exact Nat.succ_ne_zero _
  · intro r hr
    rw [wakes_phase] at hr
    rcases hwoke.reads r with heq | ⟨_, _, _, heq⟩ <;> rw [heq] <;> exact h.sizes r hr
  · intro e
    rw [hwoke.limit]
    exact h.limits e
  · rw [Pair.log, hwoke.history]
    exact h.log

theorem Supplied.closed (h : Supplied s) : Supplied { s with closed := true } :=
  h.congr rfl (fun _ hq => absurd hq.2.2 (by simp)) h.limits h.log

theorem Supplied.closePair (h : Supplied s) (hs : Sound { s with closed := true } k) :
    Supplied (closePair s).1 :=
  h.closed.wakes hs fun _ _ _ hq => absurd hq.2.2 (by simp)

theorem Supplied.unlink (h : Supplied s) (r : Nat) : Supplied (s.unlink r) := by
  rcases unlink_eq s r with heq | heq
  · rw [heq]
    refine h.congr rfl ?_ ?_ h.log
    · rintro e ⟨hbuf, heof, hopen⟩
      exact ⟨(unpark_buf _ _ _).symm.trans hbuf, (unpark_eof _ _ _).symm.trans heof, hopen⟩
    · intro e
      rw [unpark_maxReadSize]
      exact h.limits e
  · rwa [heq]

theorem readCount_ne_zero {buffers : List Buffer} {side : Half}
    (hbuffers : bufferEmpty buffers = false) (hbuf : side.buf ≠ [])
    (hlimit : side.maxReadSize ≠ 0) : readCount buffers side ≠ 0 := by
  have htotal := totalSize_ne_zero hbuffers
  have hlength : side.buf.length ≠ 0 := fun h => hbuf (List.eq_nil_of_length_eq_zero h)
  unfold readCount
  omega

theorem readCount_le_bufferSize {buffers : List Buffer} (side : Half)
    (h : totalSize buffers < sizeValues) : readCount buffers side ≤ bufferSize buffers := by
  rw [bufferSize_eq, Nat.mod_eq_of_lt h]
  unfold readCount
  omega

theorem Supplied.takeBytes (h : Supplied s) {r : Nat} {late : Bool}
    (hbuffers : bufferEmpty (s.reads r).buffers = false)
    (hsize : totalSize (s.reads r).buffers < sizeValues)
    (hbuf : (s.sides (s.reads r).side).buf ≠ [])
    (hown : ∀ v, v ≠ r → (s.reads v).Woken → (s.reads v).side = (s.reads r).side →
      ¬(takeBytes s r late).Quiet (s.reads r).side) : Supplied (takeBytes s r late) := by
  have hdone : Supplied (TestStream.completeRead s r late
      ⟨{}, readCount (s.reads r).buffers (s.sides (s.reads r).side)⟩
      ((s.sides (s.reads r).side).buf.take
        (readCount (s.reads r).buffers (s.sides (s.reads r).side))) false) :=
    h.completeRead (reports_of_bytes (readCount_ne_zero hbuffers hbuf (h.limits _))
      (readCount_le_bufferSize _ hsize))
  refine ⟨?_, hdone.posted, hdone.sizes, ?_, hdone.log⟩
  · intro v hv
    rcases eq_or_ne v r with rfl | hne
    · have hphase := hv.1
      rw [takeBytes_reads, finish_phase, if_pos rfl] at hphase
      simp at hphase
    · rw [takeBytes_reads, finish_reads, updateRead_of_ne _ _ _ hne] at hv ⊢
      rcases eq_or_ne (s.reads v).side (s.reads r).side with heq | hside
      · rw [heq]
        exact hown v hne hv heq
      · rintro ⟨hq, heof, hopen⟩
        rw [takeBytes_sides, updateSide_of_ne _ _ _ hside] at hq heof
        exact h.woken v hv ⟨hq, heof, hopen⟩
  · intro e
    rw [takeBytes_sides, updateSide_keeps _ _ _ Half.maxReadSize (by simp)]
    exact h.limits e

/-- A call that brings something to a side, or finds no read parked there, and then
wakes its read. -/
theorem Supplied.wakeSide (h : Supplied s) {e : Bool} (hreads : s'.reads = s.reads)
    (hquiet : ∀ e', s'.Quiet e' → s.Quiet e')
    (hlimits : ∀ e', (s'.sides e').maxReadSize = (s.sides e').maxReadSize) (hlog : s'.log = s.log)
    (hs : Sound s' k) (he : (s'.sides e).pendingCont ≠ none → ¬s'.Quiet e) :
    Supplied (TestStream.wakes s' [e]).1 := by
  have hs' : Supplied s' := by
    refine h.congr hreads hquiet ?_ (hlog ▸ h.log)
    intro e'
    rw [hlimits]
    exact h.limits e'
  refine hs'.wakes hs ?_
  intro e' he'
  rw [List.mem_singleton.mp he']
  exact he

theorem Supplied.append (h : Supplied s) {e : Bool} {sv : List UInt8}
    (hs : Sound (s.updateSide (!e) fun side => { side with buf := side.buf ++ sv }) k)
    (hsv : sv ≠ [] ∨ (s.sides (!e)).pendingCont = none) : Supplied (append s e sv).1 := by
  refine h.wakeSide (e := !e) rfl ?_ ?_ rfl hs ?_
  · rintro e' ⟨hbuf, heof, hopen⟩
    rcases eq_or_ne e' (!e) with rfl | hne
    · simp only [updateSide_self] at hbuf heof
      exact ⟨(List.append_eq_nil_iff.mp hbuf).1, heof, hopen⟩
    · simp only [updateSide_of_ne _ _ _ hne] at hbuf heof
      exact ⟨hbuf, heof, hopen⟩
  · exact updateSide_keeps s (!e) (fun side => { side with buf := side.buf ++ sv })
      Half.maxReadSize fun _ => rfl
  · intro hcont hq
    simp only [updateSide_self] at hcont
    rcases hsv with hne | hnone
    · have hbuf := hq.1
      simp only [updateSide_self] at hbuf
      exact hne (List.append_eq_nil_iff.mp hbuf).2
    · exact hcont hnone

theorem Supplied.close (h : Supplied s) (hs : Sound s k) (e : Bool) :
    Supplied (close s e).1 := by
  refine h.wakeSide (e := !e) rfl ?_ ?_ rfl
    (hs.updateSide (!e) (fun side => { side with eof := true }) fun _ => ⟨rfl, rfl, rfl⟩) ?_
  · rintro e' ⟨hbuf, heof, hopen⟩
    rcases eq_or_ne e' (!e) with rfl | hne
    · simp at heof
    · rw [updateSide_of_ne _ _ _ hne] at hbuf heof
      exact ⟨hbuf, heof, hopen⟩
  · exact updateSide_keeps s (!e) (fun side => { side with eof := true }) Half.maxReadSize
      fun _ => rfl
  · intro _ hq
    have heof := hq.2.1
    simp at heof

/-- The read takes the last bytes of its end. -/
def takesLast (s : Pair) (r : Nat) (e : Bool) (buffers : List Buffer) (reply : Fuse.Reply) : Bool :=
  !s.closed && !(s.sides e).eof && !(s.reads r).canceled && !fails reply &&
    !(s.sides e).buf.isEmpty && readCount buffers (s.sides e) == (s.sides e).buf.length

theorem Resumed.supplied {r : Nat} {late : Bool} {reply : Fuse.Reply} {out : Pair × Option Pc}
    (hout : Resumed s r late reply out) (h : Supplied s) (hs : Sound s k)
    (hr : (s.reads r).canceled = false → ∀ e, (s.sides e).pendingCont ≠ some r)
    (hlate : late = true → s.closed = true)
    (hsize : totalSize (s.reads r).buffers < sizeValues)
    (hbuf : bufferEmpty (s.reads r).buffers = false → (s.reads r).canceled = false →
      ¬s.Quiet (s.reads r).side)
    (hown : takesLast s r (s.reads r).side (s.reads r).buffers reply = true →
      ∀ v, v ≠ r → (s.reads v).side = (s.reads r).side → ¬(s.reads v).Woken) :
    Supplied out.1 := by
  cases hout with
  | empty hempty => exact h.completeRead (reports_of_empty (bufferSize_of_empty hempty))
  | canceled _ _ =>
      refine (h.unlink r).completeRead ?_
      rw [unlink_reads]
      exact reports_of_error rfl
  | eof _ _ _ => exact h.completeRead (reports_of_error rfl)
  | bytes hnonempty hcanceled hopen hbytes hreply =>
      have hne : (s.sides (s.reads r).side).buf ≠ [] := by
        intro hnil
        cases heof : (s.sides (s.reads r).side).eof with
        | true => exact hbytes heof hnil
        | false => exact hbuf hnonempty hcanceled ⟨hnil, heof, hopen⟩
      refine h.takeBytes hnonempty hsize hne ?_
      rintro v hv hwoken hside ⟨hnil, heof, -⟩
      rw [takeBytes_sides, updateSide_self] at hnil heof
      dsimp only at hnil heof
      have hcount : readCount (s.reads r).buffers (s.sides (s.reads r).side) =
          (s.sides (s.reads r).side).buf.length := by
        refine Nat.le_antisymm ?_ (List.drop_eq_nil_iff.mp hnil)
        unfold readCount
        omega
      refine hown ?_ v hv hside hwoken
      simp [takesLast, hopen, heof, hcanceled, hreply heof, hne, hcount]
  | failure _ hcanceled hopen hec =>
      exact (h.closed.completeRead (reports_of_error hec)).closePair
        (hs.completeFailure (hr hcanceled) hopen hlate)
  | thrown _ hcanceled _ =>
      exact ((h.finish r).record .thrown fun _ hc => nomatch hc).closePair
        (hs.finish (hr hcanceled)).thrown

theorem take_flatten_ne_nil {buffers : List Buffer} (mem : Nat → UInt8)
    (h : bufferSize buffers ≠ 0) :
    ((flatten buffers).map mem).take (bufferSize buffers) ≠ [] := by
  intro hnil
  have hlength := length_take_flatten buffers mem
  rw [hnil, List.length_nil] at hlength
  exact h hlength.symm

theorem Wrote.supplied {e : Bool} {buffers : List Buffer} {mem : Nat → UInt8} {stop : Bool}
    {out : Pair × Option Pc} (hout : Wrote s e buffers mem stop out) (h : Supplied s)
    (hs : Sound s k) : Supplied out.1 := by
  cases hout with
  | empty hempty => exact h.completed (reports_of_empty hempty)
  | canceled _ _ => exact h.completed (reports_of_error rfl)
  | eof _ _ => exact h.completed (reports_of_error rfl)
  | bytes hnonempty hopen =>
      exact (h.completed (reports_of_bytes hnonempty le_rfl)).append (hs.write hopen)
        (.inl (take_flatten_ne_nil mem hnonempty))
  | failure _ hopen hec =>
      exact (h.completed (reports_of_error hec)).closePair (hs.writeFailure hopen hec)
  | thrown _ => exact (h.record .thrown fun _ hc => nomatch hc).closePair hs.thrown

theorem Supplied.updateFlags (h : Supplied s) (r : Nat) (g : Read → Read)
    (hg : ∀ a, (g a).phase = a.phase ∧ (g a).side = a.side ∧ (g a).buffers = a.buffers ∧
      (g a).posts = a.posts ∧ (g a).canceled = a.canceled) : Supplied (s.updateRead r g) := by
  obtain ⟨hphase, hside, hbuffers, hposts, hcanceled⟩ := hg (s.reads r)
  refine h.updateRead r g ?_ ?_ ?_
  · unfold Read.Woken
    rw [hphase, hside, hposts, hcanceled]
    exact h.woken r
  · rw [hphase, hposts]
    exact h.posted r
  · rw [hphase, hbuffers]
    exact h.sizes r

theorem Supplied.callbackReturns (h : Supplied s) (r : Nat) (inConstructor : Bool) :
    Supplied (callbackReturns s r inConstructor) := by
  unfold TestStream.callbackReturns
  split_ifs
  · exact h.updateFlags r _ fun _ => ⟨rfl, rfl, rfl, rfl, rfl⟩
  · exact h

/-- No other read of the end has been woken and waits to be resumed. -/
def onlyWoken (s : Pair) (r : Nat) (e : Bool) : Bool :=
  s.outstanding.all fun v => v == r || (s.reads v).side != e || (s.reads v).posts == 0 ||
    (s.reads v).canceled

theorem not_woken_of_onlyWoken {r : Nat} {e : Bool} (h : onlyWoken s r e = true)
    (houtstanding : ∀ v, (s.reads v).phase = .suspended ∨ (s.reads v).phase = .resuming →
      v ∈ s.outstanding) {v : Nat} (hv : v ≠ r) (hside : (s.reads v).side = e) :
    ¬(s.reads v).Woken := by
  rintro ⟨hphase, hposts, hcanceled⟩
  have hall := List.all_eq_true.mp h v (houtstanding v hphase)
  simp [hv, hside, hposts, hcanceled] at hall

theorem Step.supplied {pc : Pc} {reply : Fuse.Reply} {out : Pair × Option Pc}
    (hstep : Step s reply pc out) (h : Supplied s) (hs : Sound s fun r => k r + pc.claims r)
    (hresuming : ∀ r, pc.resumes r ≤ if (s.reads r).phase = .resuming then 1 else 0)
    (hposting : ∀ rest, pc = .posting rest → rest ≠ [] → s.closed = true)
    (houtstanding : ∀ v, (s.reads v).phase = .suspended ∨ (s.reads v).phase = .resuming →
      v ∈ s.outstanding)
    (hown : ∀ r, pc = .awaitResume r →
      takesLast s r (s.reads r).side (s.reads r).buffers reply = true →
      onlyWoken s r (s.reads r).side = true) : Supplied out.1 := by
  cases hstep with
  | @awaitResume r _ hout =>
      have hphase := phase_of_resumes (hresuming r)
      refine hout.supplied (h.updateFlags r _ (by simp))
        (hs.updateFlags r _ (fun _ => rfl) fun hf => absurd (hf.symm.trans hphase) (by simp))
        ?_ (by simp) ?_ ?_ ?_
      · intro hcanceled e hp
        rw [updateRead_self] at hcanceled
        exact absurd ((hs.canceled_of_resuming hphase hp).symm.trans hcanceled) (by simp)
      · rw [updateRead_self]
        exact h.sizes r (.inr hphase)
      · rw [updateRead_self]
        exact fun _ hcanceled => h.woken r ⟨.inr hphase, h.posted r hphase, hcanceled⟩
      · rw [updateRead_self]
        intro hlast v hv hside
        rw [updateRead_of_ne _ _ _ hv] at hside ⊢
        refine not_woken_of_onlyWoken (hown r rfl ?_) houtstanding hv hside
        simpa [takesLast] using hlast
  | cancelLost _ | cancelReturns => exact h.callbackReturns _ _
  | @cancelClaim r _ _ =>
      dsimp only
      exact h.updateFlags r _ (by simp)
  | @cancelPost r _ =>
      dsimp only
      refine h.updateRead r _ ?_ (fun _ => Nat.succ_ne_zero _) (h.sizes r)
      exact fun hwoken => absurd hwoken.2.2 (by simp)
  | @posted rest =>
      refine h.wakes hs fun e he _ hq => ?_
      have hclosed := hposting rest rfl (List.ne_nil_of_mem he)
      exact absurd (hq.2.2.symm.trans hclosed) (by simp)

theorem Supplied.start (h : Supplied s) {r : Nat} (hr : (s.reads r).phase = .fresh) (e : Bool)
    (buffers : List Buffer) : Supplied (s.start r e buffers) := by
  have hstart := h.drop r (fun a => { a with side := e, buffers := buffers })
    ⟨by simp [hr], by simp [hr]⟩
  exact hstart.congr rfl (fun _ hq => hq) hstart.limits hstart.log

theorem Supplied.updateSide (h : Supplied s) (e : Bool) (f : Half → Half)
    (hf : ∀ side, (f side).buf = side.buf ∧ (f side).eof = side.eof)
    (hlimit : (f (s.sides e)).maxReadSize ≠ 0) : Supplied (s.updateSide e f) := by
  refine h.congr rfl ?_ ?_ h.log
  · rintro e' ⟨hbuf, heof, hopen⟩
    rw [updateSide_keeps s e f Half.buf (fun side => (hf side).1)] at hbuf
    rw [updateSide_keeps s e f Half.eof (fun side => (hf side).2)] at heof
    exact ⟨hbuf, heof, hopen⟩
  · intro e'
    rcases eq_or_ne e' e with rfl | hne
    · rw [updateSide_self]
      exact hlimit
    · rw [updateSide_of_ne _ _ _ hne]
      exact h.limits e'

theorem Supplied.park (h : Supplied s) {r : Nat} {e : Bool} (race : Bool)
    (hsize : totalSize (s.reads r).buffers < sizeValues) (hposts : (s.reads r).posts = 0) :
    Supplied (s.park r e race) := by
  have hparked := h.updateRead r
    (fun a => { a with
      linked := true
      phase := .suspended
      stop := race
      registered := !race
      active := !race })
    (fun hwoken => absurd hposts hwoken.2.1) (by simp) (fun _ => hsize)
  exact hparked.updateSide e
    (fun side => { side with pendingCont := some r, pendingClaimed := some r })
    (fun _ => ⟨rfl, rfl⟩) (h.limits e)

theorem Entered.supplied {a : Entry} {out : Pair × Option Pc} (henter : Entered s a out)
    (h : Supplied s) (hs : Sound s k)
    (houtstanding : ∀ v, (s.reads v).phase = .suspended ∨ (s.reads v).phase = .resuming →
      v ∈ s.outstanding)
    (hread : ∀ r e buffers race reply, a = .readSome r e buffers race reply →
      totalSize buffers < sizeValues ∧
        (takesLast s r e buffers reply = true → onlyWoken s r e = true))
    (hprovide : ∀ e sv, a = .provide e sv → sv ≠ [] ∨ (s.sides (!e)).pendingCont = none)
    (hlimit : ∀ e n, a = .setMaxReadSize e n → (n : Nat) ≠ 0) : Supplied out.1 := by
  cases henter with
  | @completes r e buffers race reply _ hfresh hready hout =>
      obtain ⟨hsize, hown⟩ := hread r e buffers race reply rfl
      refine hout.supplied (h.start hfresh e buffers) (hs.start hfresh e buffers) ?_ id ?_ ?_ ?_
      · exact fun _ => hs.not_parked_of_fresh hfresh
      · simpa [Pair.start] using hsize
      · simp only [Pair.start, updateRead_self]
        rintro hnonempty - ⟨hbuf, heof, hopen⟩
        simp only [updateRead_sides, updateRead_closed] at hbuf heof hopen
        simp [awaitReady, hnonempty, hbuf, heof, hopen] at hready
      · simp only [Pair.start, updateRead_self]
        intro hlast v hv hside
        rw [updateRead_of_ne _ _ _ hv] at hside ⊢
        refine not_woken_of_onlyWoken (hown ?_) houtstanding hv hside
        simpa [takesLast] using hlast
  | @stopped r e buffers race reply hfresh hready =>
      have hstopped : Supplied ((s.start r e buffers).updateRead r fun a =>
          { a with canceled := true }) :=
        (h.start hfresh e buffers).drop r _ (by simp [Pair.start, hfresh])
      exact (hstopped.unlink r).completeRead (reports_of_error rfl)
  | @parks r e buffers race reply hfresh hready =>
      refine (h.start hfresh e buffers).park race ?_ ?_
      · simpa [Pair.start] using (hread r e buffers race reply rfl).1
      · have hposts := hs.posts r
        rw [(hs.fresh r hfresh).1, Bool.toNat_false] at hposts
        simpa [Pair.start] using Nat.eq_zero_of_add_eq_zero_right hposts
  | @resume r hphase hposts =>
      dsimp only
      refine h.updateRead r _ ?_ (fun _ => hposts) (fun _ => h.sizes r (.inl hphase))
      exact fun hwoken => h.woken r ⟨.inl hphase, hwoken.2⟩
  | @destroy r hphase =>
      have hdestroyed := (h.unlink r).drop r
        (fun a => { a with registered := a.registered && !a.active, phase := .destroyed })
        ⟨by simp, by simp⟩
      exact hdestroyed.congr rfl (fun _ hq => hq) hdestroyed.limits hdestroyed.log
  | writeSome hout => exact hout.supplied h hs
  | @provide e sv =>
      exact (h.record (.provided (!e) sv) (by simp)).append (hs.provide e sv) (hprovide e sv rfl)
  | close => exact h.close hs _
  | @setMaxReadSize e n =>
      exact h.updateSide e (fun side => { side with maxReadSize := n }) (fun _ => ⟨rfl, rfl⟩)
        (hlimit e n rfl)
  | @requestStop r =>
      dsimp only
      exact h.updateFlags r _ (by simp)
  | @stopCallback r _ =>
      dsimp only
      exact h.updateFlags r _ (by simp)

end Supplied

/-- Only `state::close` is inside a post with sides left to wake. -/
def Closing (s : Pair) (q : Option Pc) : Prop :=
  ∀ rest, q = some (.posting rest) → rest ≠ [] → s.closed = true

theorem closing_none (s : Pair) : Closing s none := by
  rintro rest ⟨⟩

theorem closing_of_closed {s : Pair} (h : s.closed = true) (q : Option Pc) : Closing s q :=
  fun _ _ _ => h

theorem closing_wake (s : Pair) (e : Bool) : Closing (wakes s [e]).1 (wakes s [e]).2 := by
  intro rest hq hne
  unfold wakes at hq
  split_ifs at hq
  · obtain rfl : rest = [] := by simpa using hq.symm
    exact absurd rfl hne
  · simp [wakes] at hq

theorem closing_closePair (s : Pair) : Closing (closePair s).1 (closePair s).2 :=
  closing_of_closed (wakes_closed _ _) _

theorem closing_append (s : Pair) (e : Bool) (sv : List UInt8) :
    Closing (append s e sv).1 (append s e sv).2 ∧
      (s.closed = true → (append s e sv).1.closed = true) := by
  refine ⟨closing_wake _ _, fun h => ?_⟩
  rw [append, wakes_closed]
  exact h

theorem Resumed.closing {s : Pair} {r : Nat} {late : Bool} {reply : Fuse.Reply}
    {out : Pair × Option Pc} (h : Resumed s r late reply out) :
    Closing out.1 out.2 ∧ (s.closed = true → out.1.closed = true) := by
  cases h with
  | empty _ | eof _ _ _ | bytes _ _ _ _ _ => exact ⟨closing_none _, id⟩
  | canceled _ _ => exact ⟨closing_none _, (unlink_closed s r).trans⟩
  | failure _ _ _ _ | thrown _ _ _ => exact ⟨closing_closePair _, fun _ => wakes_closed _ _⟩

theorem Wrote.closing {s : Pair} {e : Bool} {buffers : List Buffer} {mem : Nat → UInt8}
    {stop : Bool} {out : Pair × Option Pc} (h : Wrote s e buffers mem stop out) :
    Closing out.1 out.2 ∧ (s.closed = true → out.1.closed = true) := by
  cases h with
  | empty _ | canceled _ _ | eof _ _ => exact ⟨closing_none _, id⟩
  | bytes _ _ => exact closing_append _ _ _
  | failure _ _ _ | thrown _ => exact ⟨closing_closePair _, fun _ => wakes_closed _ _⟩

theorem Step.closing {s : Pair} {pc : Pc} {reply : Fuse.Reply} {out : Pair × Option Pc}
    (hstep : Step s reply pc out)
    (hposting : ∀ rest, pc = .posting rest → rest ≠ [] → s.closed = true) :
    Closing out.1 out.2 ∧ (s.closed = true → out.1.closed = true) := by
  cases hstep with
  | awaitResume hout => exact hout.closing
  | cancelLost _ | cancelReturns =>
      refine ⟨closing_none _, ?_⟩
      unfold callbackReturns
      split_ifs <;> exact id
  | cancelClaim _ | cancelPost => exact ⟨fun rest hq => by simp at hq, id⟩
  | @posted rest =>
      refine ⟨?_, (wakes_closed _ _).trans⟩
      cases rest with
      | nil => exact closing_none _
      | cons e rest =>
          exact closing_of_closed ((wakes_closed _ _).trans (hposting _ rfl (by simp))) _

theorem Entered.closing {s : Pair} {a : Entry} {out : Pair × Option Pc} (henter : Entered s a out) :
    Closing out.1 out.2 ∧ (s.closed = true → out.1.closed = true) := by
  cases henter with
  | completes _ _ hout => exact hout.closing
  | @stopped r e buffers _ _ _ _ =>
      exact ⟨closing_none _, (unlink_closed ((s.start r e buffers).updateRead r _) r).trans⟩
  | @parks _ _ _ race _ _ _ =>
      refine ⟨?_, id⟩
      intro rest hq
      cases race <;> simp at hq
  | resume _ _ | stopCallback _ => exact ⟨fun rest hq => by simp at hq, id⟩
  | destroy _ => exact ⟨closing_none _, (unlink_closed s _).trans⟩
  | writeSome hout => exact hout.closing
  | provide => exact closing_append _ _ _
  | close =>
      refine ⟨closing_wake _ _, fun h => ?_⟩
      rw [TestStream.close, wakes_closed]
      exact h
  | setMaxReadSize | requestStop => exact ⟨closing_none _, id⟩

/-- What the calls on a pair have to keep to: a limit is not zero, an empty string is
not provided to an end with a parked read, the size of a buffer sequence is a
`std::size_t`, and a read does not take the last bytes of an end while another read
that has been woken for them waits to be resumed. -/
def feeding (s : State Pair Pc) : Event Fuse.Reply Entry → Bool
  | .run t reply =>
      match topPc t s.frames with
      | some (.awaitResume r) =>
          !takesLast s.shared r (s.shared.reads r).side (s.shared.reads r).buffers reply ||
            onlyWoken s.shared r (s.shared.reads r).side
      | _ => true
  | .enter _ (.readSome r e buffers _ reply) =>
      decide (totalSize buffers < sizeValues) &&
        (!takesLast s.shared r e buffers reply || onlyWoken s.shared r e)
  | .enter _ (.provide e sv) => !sv.isEmpty || (s.shared.sides (!e)).pendingCont.isNone
  | .enter _ (.setMaxReadSize _ n) => (n : Nat) != 0
  | .enter _ _ => true

/-- What holds of a pair whose calls keep to this. -/
structure Fed (s : Pair) (fs : List (Frame Pc)) : Prop where
  invariant : Invariant s fs
  supplied : Supplied s
  posting : ∀ f ∈ fs, ∀ rest, f.pc = .posting rest → rest ≠ [] → s.closed = true

theorem fed_preserved : machine.Preserves feeding Fed := by
  have hpreserved := invariant_preserved feeding
  refine Machine.Preserves.ofSteps ?_ ?_
  · intro s l t pc r reply s' q h hst hl hok hexec
    have hstep := exec_step hexec
    obtain ⟨hothers, hposting⟩ := forall_split.mp h.posting
    have hclosing := hstep.closing hposting
    refine ⟨hpreserved.exec h.invariant hst hl hok (by simp [machine, Machine.ofSteps, hexec]),
      ?_, ?_⟩
    · have hsound := h.invariant.sound
      simp only [total_split] at hsound
      refine hstep.supplied h.supplied hsound h.invariant.resumes_le hposting
        h.invariant.outstanding ?_
      rintro v rfl hlast
      simp only [feeding, topPc_append hl, hlast, Bool.not_true, Bool.false_or] at hok
      exact hok
    · refine forall_replace.mpr ⟨?_, ?_⟩
      · exact fun f hf rest hpc hne => hclosing.2 (hothers f hf rest hpc hne)
      · rintro pc' rfl rest hpc hne
        exact hclosing.1 rest (congrArg some hpc) hne
  · intro s fs t a s' q h hst hfree hok henter
    have hentered := enter_entered henter
    refine ⟨hpreserved.enter h.invariant hst hfree hok (by simp [machine, Machine.ofSteps, henter]),
      ?_, ?_⟩
    · refine hentered.supplied h.supplied h.invariant.sound h.invariant.outstanding ?_ ?_ ?_
      · rintro v e buffers race reply rfl
        simp only [feeding, Bool.and_eq_true, decide_eq_true_eq, Bool.or_eq_true,
          Bool.not_eq_true'] at hok
        exact ⟨hok.1, fun hlast => hok.2.resolve_left (by simp [hlast])⟩
      · rintro e sv rfl
        simpa [feeding] using hok
      · rintro e n rfl
        simpa [feeding] using hok
    · refine forall_enter.mpr ⟨?_, ?_⟩
      · exact fun f hf rest hpc hne => hentered.closing.2 (h.posting f hf rest hpc hne)
      · rintro pc rfl rest hpc hne
        exact hentered.closing.1 rest (congrArg some hpc) hne

theorem supplied_initial : Supplied {} where
  woken r hr := absurd hr.1 (by simp)
  posted := by simp
  sizes := by simp
  limits _ := Nat.succ_ne_zero _
  log := by simp [Pair.log]

theorem fed_of_reachable {s : State Pair Pc} (h : machine.ReachableWhen feeding Initial s) :
    Fed s.shared s.frames := by
  refine fed_preserved.reachableWhen ?_ ?_ h
  · rintro s rfl
    rfl
  · rintro s rfl
    exact ⟨invariant_initial, supplied_initial, by simp⟩

/-- In every run of a stream pair whose calls keep to `feeding`, every completed
operation meets the requirements; and a read or a write stream meets them after every
sequence of calls just when its limit is not zero. -/
theorem test_streams_conform_when {s : State Pair Pc}
    (h : machine.ReachableWhen feeding Initial s) (limit : Fin sizeValues) :
    (∀ c ∈ s.shared.log, Reports c.buffers c.results) ∧
    ((∀ calls : List ReadCall, (∀ c ∈ calls, c.Fits) →
      ∀ done ∈ completions ReadStream.call { maxReadSize := limit } calls,
        Reports done.bufs done.results) ↔ (limit : Nat) ≠ 0) ∧
    ((∀ calls : List WriteCall,
      ∀ done ∈ completions WriteStream.call { maxWriteSize := limit } calls,
        Reports done.bufs done.results) ↔ (limit : Nat) ≠ 0) :=
  ⟨(fed_of_reachable h).supplied.log, ReadStream.reports_iff limit, WriteStream.reports_iff limit⟩

/-- A parked read that gets what is provided in two pieces. -/
def chunkedRun : List (Event Fuse.Reply Entry) :=
  [.enter 0 (.setMaxReadSize false ⟨2, two_lt_sizeValues⟩),
    .enter 0 (.readSome 0 false [⟨16, 4, four_lt_sizeValues⟩] false .none),
    .enter 0 (.provide true [1, 2, 3]), .enter 0 (.resume 0), .run 0 .none, .run 0 .none,
    .enter 0 (.readSome 1 false [⟨16, 4, four_lt_sizeValues⟩] false .none)]

theorem test_streams_conform_when_chunkedRun :
    ∃ s, machine.runWhen feeding ⟨{}, []⟩ chunkedRun = some s ∧
      s.shared.log.map (fun c => c.results.payload) = [2, 1] ∧
      ∀ c ∈ s.shared.log, Reports c.buffers c.results := by
  obtain ⟨s, hrun, hlog⟩ : ∃ s, machine.runWhen feeding ⟨{}, []⟩ chunkedRun = some s ∧
      s.shared.log.map (fun c => c.results.payload) = [2, 1] := ⟨_, rfl, rfl⟩
  have hreach : machine.ReachableWhen feeding Initial s :=
    Machine.ReachableWhen.runWhen (.init rfl) chunkedRun hrun
  exact ⟨s, hrun, hlog, (test_streams_conform_when hreach ⟨1, by decide⟩).1⟩

/-- A parked read is woken by an empty string. -/
def emptyProvide : List (Event Fuse.Reply Entry) :=
  [.enter 0 (.readSome 0 false [⟨16, 4, four_lt_sizeValues⟩] false .none),
    .enter 0 (.provide true []), .enter 0 (.resume 0), .run 0 .none]

/-- A read with a limit of zero bytes. -/
def zeroLimit : List (Event Fuse.Reply Entry) :=
  [.enter 0 (.setMaxReadSize false ⟨0, sizeValues_pos⟩), .enter 0 (.provide true [1]),
    .enter 0 (.readSome 0 false [⟨16, 4, four_lt_sizeValues⟩] false .none)]

/-- A read takes the byte that another one has been woken for. -/
def lastByteTaken : List (Event Fuse.Reply Entry) :=
  [.enter 0 (.readSome 0 false [⟨16, 4, four_lt_sizeValues⟩] false .none),
    .enter 0 (.provide true [1]),
    .enter 0 (.readSome 1 false [⟨32, 4, four_lt_sizeValues⟩] false .none),
    .enter 0 (.resume 0), .run 0 .none]

theorem not_reports_zero_bytes {buffers : List Buffer} (h : 0 < bufferSize buffers) :
    ¬Reports buffers ⟨{}, 0⟩ :=
  fun hr => absurd (hr.success h rfl).1 (by decide)

theorem test_streams_zero_byte_success :
    (∃ s, machine.runEvents ⟨{}, []⟩ emptyProvide = some s ∧
      ∃ c ∈ s.shared.log, ¬Reports c.buffers c.results) ∧
    (∃ s, machine.runEvents ⟨{}, []⟩ zeroLimit = some s ∧
      ∃ c ∈ s.shared.log, ¬Reports c.buffers c.results) ∧
    ∃ s, machine.runEvents ⟨{}, []⟩ lastByteTaken = some s ∧
      ∃ c ∈ s.shared.log, ¬Reports c.buffers c.results := by
  have hsize : 0 < bufferSize [⟨16, 4, by decide⟩] := by decide
  refine ⟨⟨_, rfl, _, .head _, ?_⟩, ⟨_, rfl, _, .head _, ?_⟩, ⟨_, rfl, _, .tail _ (.head _), ?_⟩⟩
  · exact not_reports_zero_bytes hsize
  · exact not_reports_zero_bytes hsize
  · exact not_reports_zero_bytes hsize

end Capy.TestStream
