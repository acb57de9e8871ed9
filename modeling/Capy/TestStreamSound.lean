import Capy.TestStreamSteps

namespace Capy.TestStream

open Buffers
open CallStack
open Join (ErrorCode Results)

/-- A read that is parked on a side. -/
structure Read.Parked (a : Read) (e : Bool) : Prop where
  side : a.side = e
  linked : a.linked = true
  phase : a.phase = .suspended ∨ a.phase = .resuming ∧ a.canceled = true
  posted : a.posts ≠ 0 → a.canceled = true

theorem Read.Parked.phase_ne_fresh {a : Read} {e : Bool} (h : a.Parked e) : a.phase ≠ .fresh := by
  rcases h.phase with hp | ⟨hp, -⟩ <;> simp [hp]

/-- Nothing has come to a side since its read was parked. -/
def Pair.Quiet (s : Pair) (e : Bool) : Prop :=
  (s.sides e).buf = [] ∧ (s.sides e).eof = false ∧ s.closed = false

/-- What a completed operation reports. -/
structure Reported (c : Completion) : Prop where
  eof : c.write = false → c.results.ec = eof → c.closed = true ∨ c.buffered = []
  late : c.late = true → c.results.payload = 0 ∧
    (bufferSize c.buffers = 0 ∨ c.results.ec = TestStream.eof ∨
      c.write = true ∧ c.stop = true ∧ c.results.ec = canceled)
  size : c.moved.length = c.results.payload
  whole : c.write = true → c.results.ec.isError = false →
    c.results.payload = bufferSize c.buffers
  error : c.results.ec.isError = true →
    c.failed = true ∨ c.results.ec = TestStream.eof ∨ c.results.ec = canceled

/-- A completed operation found the pair as what had happened before tells. -/
structure Told (pre : List Record) (c : Completion) : Prop where
  buffered : pre.flatMap (Record.returned c.side) ++ c.buffered = pre.flatMap (Record.stored c.side)
  closed : c.closed = true ↔ c.failed = true ∨ ∃ x ∈ pre, x.failed = true
  late : c.write = true → (c.late = true ↔ ∃ x ∈ pre, x.failed = true)

/-- The same of the state in which it completed. -/
structure Completion.Finds (c : Completion) (s : Pair) : Prop where
  buffered : c.buffered = (s.sides c.side).buf
  closed : c.closed = (s.closed || c.failed)
  late : c.write = true → c.late = s.closed

/-- What the history of a pair tells: where its bytes are, and why it is closed. -/
structure Recorded (s : Pair) : Prop where
  bytes : ∀ e, s.delivered e ++ (s.sides e).buf = s.written e
  log : ∀ c ∈ s.log, Reported c
  told : ∀ pre c, pre ++ [.completed c] <+: s.history → Told pre c
  failure : s.closed = true ↔ ∃ x ∈ s.history, x.failed = true

/-- What holds of a pair between steps; `k` counts, for each read, the stop
callbacks that have claimed it and are at their post. -/
structure Sound (s : Pair) (k : Nat → Nat) : Prop where
  posts : ∀ r, (s.reads r).posts + k r = (s.reads r).claimed.toNat
  same : ∀ e, (s.sides e).pendingClaimed = (s.sides e).pendingCont
  parked : ∀ e r, (s.sides e).pendingCont = some r → (s.reads r).Parked e
  nonempty : ∀ r, (s.reads r).phase = .suspended ∨ (s.reads r).phase = .resuming →
    bufferEmpty (s.reads r).buffers = false
  fresh : ∀ r, (s.reads r).phase = .fresh → (s.reads r).claimed = false ∧
    (s.reads r).canceled = false ∧ (s.reads r).registered = false
  recorded : Recorded s

theorem Record.eq_completed {x : Record} {c : Completion} (h : x.completion = some c) :
    x = .completed c := by
  cases x with
  | completed c' => exact congrArg Record.completed (Option.some.inj h)
  | _ => simp [Record.completion] at h

section Recorded

variable {s s' : Pair}

theorem Recorded.congr (h : Recorded s) (hhistory : s'.history = s.history)
    (hclosed : s'.closed = s.closed) (hbuf : ∀ e, (s'.sides e).buf = (s.sides e).buf) :
    Recorded s' where
  bytes e := by
    rw [hbuf, Pair.delivered, Pair.written, hhistory]
    exact h.bytes e
  log := by
    rw [Pair.log, hhistory]
    exact h.log
  told := by
    rw [hhistory]
    exact h.told
  failure := by
    rw [hhistory, hclosed]
    exact h.failure

/-- An event is recorded, with what it does to the buffers and whether it closes the
pair. -/
theorem Recorded.step (h : Recorded s) (x : Record) (hhistory : s'.history = s.history ++ [x])
    (hclosed : s'.closed = (s.closed || x.failed))
    (hreported : ∀ c, x = .completed c → Reported c ∧ c.Finds s)
    (hbuf : ∀ e, x.returned e ++ (s'.sides e).buf = (s.sides e).buf ++ x.stored e) :
    Recorded s' where
  bytes e := by
    have hbytes := h.bytes e
    simp only [Pair.delivered, Pair.written] at hbytes ⊢
    simp only [hhistory, List.flatMap_append, List.flatMap_singleton]
    rw [List.append_assoc, hbuf, ← List.append_assoc, hbytes]
  log c hc := by
    simp only [Pair.log, hhistory, List.filterMap_append, List.mem_append] at hc
    rcases hc with hc | hc
    · exact h.log c hc
    · obtain ⟨x', hx', hc⟩ := List.mem_filterMap.mp hc
      rw [List.mem_singleton.mp hx'] at hc
      exact (hreported c (Record.eq_completed hc)).1
  told pre c hpre := by
    rw [hhistory] at hpre
    rcases List.prefix_concat_iff.mp hpre with heq | hpre
    · obtain ⟨rfl, hlast⟩ := List.append_inj' heq rfl
      obtain ⟨hbuffered, hwas, hlate⟩ := (hreported c (List.singleton_inj.mp hlast).symm).2
      refine ⟨hbuffered ▸ h.bytes c.side, ?_, fun hwrite => ?_⟩
      · rw [hwas, Bool.or_eq_true, or_comm, h.failure]
      · rw [hlate hwrite, h.failure]
    · exact h.told pre c hpre
  failure := by
    simp only [hhistory, hclosed, Bool.or_eq_true, h.failure, List.mem_append,
      List.mem_singleton, or_and_right, exists_or, exists_eq_left]

end Recorded

/-- What a wake of a side does: nothing, forget a read that a stop callback has
claimed, or claim and post the read. -/
theorem wake_cases {s : Pair} {k : Nat → Nat} (h : Sound s k) (e : Bool) :
    ((s.sides e).pendingCont = none ∧ s.wake e = (s, false)) ∨
      (∃ r, (s.sides e).pendingCont = some r ∧ (s.reads r).claimed = true ∧
        s.wake e = (s.unpark e, false)) ∨
      ∃ r, (s.sides e).pendingCont = some r ∧ (s.reads r).claimed = false ∧
        s.wake e = ((s.unpark e).updateRead r fun a =>
          { a with claimed := true, posts := a.posts + 1 }, true) := by
  cases hcont : (s.sides e).pendingCont with
  | none => exact .inl ⟨rfl, by simp [Pair.wake, hcont]⟩
  | some r =>
      have hclaimed : (s.sides e).pendingClaimed = some r := (h.same e).trans hcont
      cases hc : (s.reads r).claimed with
      | true => exact .inr (.inl ⟨r, rfl, hc, by simp [Pair.wake, hcont, hclaimed, hc]⟩)
      | false =>
          refine .inr (.inr ⟨r, rfl, hc, ?_⟩)
          simp only [Pair.wake, hcont, hclaimed, hc, Bool.false_eq_true, if_false]
          simp [Pair.post, Pair.updateRead]

section Sound

variable {s s' : Pair} {k : Nat → Nat}

theorem Sound.congr (h : Sound s k) (hreads : s'.reads = s.reads)
    (hcont : ∀ e, (s'.sides e).pendingCont = (s.sides e).pendingCont)
    (hclaimed : ∀ e, (s'.sides e).pendingClaimed = (s.sides e).pendingClaimed)
    (hrecorded : Recorded s') : Sound s' k where
  posts := by
    rw [hreads]
    exact h.posts
  same e := by rw [hcont, hclaimed, h.same]
  parked e r hr := by
    rw [hreads]
    exact h.parked e r (hcont e ▸ hr)
  nonempty := by
    rw [hreads]
    exact h.nonempty
  fresh := by
    rw [hreads]
    exact h.fresh
  recorded := hrecorded

theorem Sound.updateRead (h : Sound s k) (r : Nat) (g : Read → Read) {k' : Nat → Nat}
    (hk : ∀ r', r' ≠ r → k' r' = k r')
    (hposts : (g (s.reads r)).posts + k' r = (g (s.reads r)).claimed.toNat)
    (hparked : ∀ e, (s.reads r).Parked e → (s.sides e).pendingCont = some r →
      (g (s.reads r)).Parked e)
    (hnonempty : (g (s.reads r)).phase = .suspended ∨ (g (s.reads r)).phase = .resuming →
      bufferEmpty (g (s.reads r)).buffers = false)
    (hfresh : (g (s.reads r)).phase = .fresh → (g (s.reads r)).claimed = false ∧
      (g (s.reads r)).canceled = false ∧ (g (s.reads r)).registered = false) :
    Sound (s.updateRead r g) k' where
  posts r' := by
    rcases eq_or_ne r' r with rfl | hne
    · rw [updateRead_self]
      exact hposts
    · rw [updateRead_of_ne _ _ _ hne, hk r' hne]
      exact h.posts r'
  same := h.same
  parked e r' hr' := by
    rcases eq_or_ne r' r with rfl | hne
    · rw [updateRead_self]
      exact hparked e (h.parked e r' hr') hr'
    · rw [updateRead_of_ne _ _ _ hne]
      exact h.parked e r' hr'
  nonempty r' := by
    rcases eq_or_ne r' r with rfl | hne
    · rw [updateRead_self]
      exact hnonempty
    · rw [updateRead_of_ne _ _ _ hne]
      exact h.nonempty r'
  fresh r' := by
    rcases eq_or_ne r' r with rfl | hne
    · rw [updateRead_self]
      exact hfresh
    · rw [updateRead_of_ne _ _ _ hne]
      exact h.fresh r'
  recorded := h.recorded.congr rfl rfl fun _ => rfl

theorem Sound.unpark (h : Sound s k) (e : Bool) : Sound (s.unpark e) k where
  posts := h.posts
  same e' := by
    rw [unpark_pendingCont, unpark_pendingClaimed, h.same]
  parked e' r hr := by
    rw [unpark_pendingCont] at hr
    split_ifs at hr
    exact h.parked e' r hr
  nonempty := h.nonempty
  fresh := h.fresh
  recorded := h.recorded.congr rfl rfl (unpark_buf s e)

theorem Sound.wakeRead (h : Sound s k) {e : Bool} {r : Nat}
    (hr : (s.sides e).pendingCont = some r) (hclaimed : (s.reads r).claimed = false) :
    Sound ((s.unpark e).updateRead r fun a => { a with claimed := true, posts := a.posts + 1 })
      k := by
  have hposts := h.posts r
  rw [hclaimed, Bool.toNat_false] at hposts
  refine (h.unpark e).updateRead r _ (fun _ _ => rfl) ?_ ?_ (h.nonempty r) ?_
  · simp only [unpark_reads, Bool.toNat_true]
    omega
  · intro e' hp hr'
    -- the read is no longer parked anywhere
    rw [unpark_pendingCont] at hr'
    split_ifs at hr' with hne
    exact absurd ((h.parked e' r hr').side.symm.trans (h.parked e r hr).side) hne
  · intro hfresh
    exact absurd hfresh (h.parked e r hr).phase_ne_fresh

theorem Sound.finish (h : Sound s k) {r : Nat} (hr : ∀ e, (s.sides e).pendingCont ≠ some r) :
    Sound (s.finish r) k := by
  have hdone : Sound (s.updateRead r fun a => { a with phase := .done }) k :=
    h.updateRead r _ (fun _ _ => rfl) (h.posts r) (fun e _ hp => absurd hp (hr e)) (by simp)
      (by simp)
  exact hdone.congr rfl (fun _ => rfl) (fun _ => rfl)
    (hdone.recorded.congr rfl rfl fun _ => rfl)

/-- Induction over the wakes that a call makes. -/
theorem wakes_induct {P : Pair → Prop} (es : List Bool)
    (hsound : ∀ {s}, P s → ∃ k, Sound s k)
    (hforget : ∀ {s e r}, e ∈ es → P s → (s.sides e).pendingCont = some r →
      (s.reads r).claimed = true → P (s.unpark e))
    (hwake : ∀ {s e r}, e ∈ es → P s → (s.sides e).pendingCont = some r →
      (s.reads r).claimed = false →
      P ((s.unpark e).updateRead r fun a => { a with claimed := true, posts := a.posts + 1 }))
    (s : Pair) (h : P s) : P (wakes s es).1 := by
  induction es generalizing s with
  | nil => exact h
  | cons e rest ih =>
      obtain ⟨k, hk⟩ := hsound h
      have hrest : ∀ s', P s' → P (wakes s' rest).1 := fun s' hs' =>
        ih (fun he => hforget (List.mem_cons_of_mem _ he))
          (fun he => hwake (List.mem_cons_of_mem _ he)) s' hs'
      rcases wake_cases hk e with ⟨-, heq⟩ | ⟨r, hr, hc, heq⟩ | ⟨r, hr, hc, heq⟩
      · simp only [wakes, heq, Bool.false_eq_true, if_false]
        exact hrest s h
      · simp only [wakes, heq, Bool.false_eq_true, if_false]
        exact hrest _ (hforget List.mem_cons_self h hr hc)
      · simp only [wakes, heq, if_true]
        exact hwake List.mem_cons_self h hr hc

theorem Sound.wakes (h : Sound s k) (es : List Bool) : Sound (wakes s es).1 k :=
  wakes_induct (P := fun s => Sound s k) es (fun hs => ⟨k, hs⟩) (fun _ hs _ _ => hs.unpark _)
    (fun _ hs hr hc => hs.wakeRead hr hc) s h

/-- What a call that wakes the sides `es` does to the pair. -/
structure Woke (es : List Bool) (s s' : Pair) : Prop where
  closed : s'.closed = s.closed
  history : s'.history = s.history
  buf : ∀ e, (s'.sides e).buf = (s.sides e).buf
  eof : ∀ e, (s'.sides e).eof = (s.sides e).eof
  limit : ∀ e, (s'.sides e).maxReadSize = (s.sides e).maxReadSize
  cont : ∀ e, (s'.sides e).pendingCont = (s.sides e).pendingCont ∨
    (s'.sides e).pendingCont = none
  kept : ∀ e r, (s.sides e).pendingCont = some r →
    (s'.sides e).pendingCont = some r ∨ (s'.reads r).claimed = true
  reads : ∀ r, s'.reads r = s.reads r ∨
    ∃ e ∈ es, (s.sides e).pendingCont = some r ∧
      s'.reads r = { s.reads r with claimed := true, posts := (s.reads r).posts + 1 }

theorem Woke.refl (es : List Bool) (s : Pair) : Woke es s s where
  closed := rfl
  history := rfl
  buf _ := rfl
  eof _ := rfl
  limit _ := rfl
  cont _ := .inl rfl
  kept _ _ := .inl
  reads _ := .inl rfl

theorem Woke.cont_eq {es : List Bool} {s s' : Pair} (h : Woke es s s') {e : Bool} {r : Nat}
    (hr : (s'.sides e).pendingCont = some r) : (s.sides e).pendingCont = some r := by
  rcases h.cont e with heq | hnone
  · exact heq.symm.trans hr
  · exact absurd (hnone.symm.trans hr) (by simp)

theorem Woke.unpark {es : List Bool} {s s' : Pair} (h : Woke es s s') {e : Bool} {r : Nat}
    (hr : (s'.sides e).pendingCont = some r) (hclaimed : (s'.reads r).claimed = true) :
    Woke es s (s'.unpark e) where
  closed := h.closed
  history := h.history
  buf e' := (unpark_buf s' e e').trans (h.buf e')
  eof e' := (unpark_eof s' e e').trans (h.eof e')
  limit e' := (unpark_maxReadSize s' e e').trans (h.limit e')
  cont e' := by
    rw [unpark_pendingCont]
    split_ifs
    · exact .inr rfl
    · exact h.cont e'
  kept e' v hv := by
    rw [unpark_pendingCont, unpark_reads]
    split_ifs with he
    · subst he
      rw [h.cont_eq hr] at hv
      rw [← Option.some.inj hv]
      exact .inr hclaimed
    · exact h.kept e' v hv
  reads := h.reads

theorem Woke.wakeRead {es : List Bool} {s s' : Pair} (h : Woke es s s') {e : Bool} {r : Nat}
    (he : e ∈ es) (hr : (s'.sides e).pendingCont = some r)
    (hclaimed : (s'.reads r).claimed = false) :
    Woke es s (s'.updateRead r fun a => { a with claimed := true, posts := a.posts + 1 }) where
  closed := h.closed
  history := h.history
  buf := h.buf
  eof := h.eof
  limit := h.limit
  cont := h.cont
  kept e' v hv := by
    rcases eq_or_ne v r with rfl | hne
    · rw [updateRead_self]
      exact .inr rfl
    · rw [updateRead_of_ne _ _ _ hne]
      exact h.kept e' v hv
  reads v := by
    rcases eq_or_ne v r with rfl | hne
    · rcases h.reads v with heq | ⟨_, _, _, heq⟩
      · rw [updateRead_self, heq]
        exact .inr ⟨e, he, h.cont_eq hr, rfl⟩
      · rw [heq] at hclaimed
        exact absurd hclaimed (by simp)
    · rw [updateRead_of_ne _ _ _ hne]
      exact h.reads v

theorem Sound.woke {s : Pair} {k : Nat → Nat} (h : Sound s k) (es : List Bool) :
    Woke es s (TestStream.wakes s es).1 := by
  refine (wakes_induct (P := fun s' => Sound s' k ∧ Woke es s s') es (fun hs => ⟨k, hs.1⟩)
    ?_ ?_ s ⟨h, .refl es s⟩).2
  · intro s' e r _ hs' hr hc
    exact ⟨hs'.1.unpark e, hs'.2.unpark hr hc⟩
  · intro s' e r he hs' hr hc
    refine ⟨hs'.1.wakeRead hr hc, ?_⟩
    have hwoke := hs'.2.wakeRead he hr hc
    exact hwoke.unpark (e := e) (r := r) hr (by simp)

theorem Sound.fail (h : Sound s k) (x : Record) (hreads : s'.reads = s.reads)
    (hsides : s'.sides = s.sides) (hhistory : s'.history = s.history ++ [x])
    (hfailed : x.failed = true) (hreported : ∀ c, x = .completed c → Reported c ∧ c.Finds s)
    (hmoved : ∀ e, x.returned e = [] ∧ x.stored e = []) :
    Sound { s' with closed := true } k := by
  refine h.congr hreads (fun e => by rw [hsides]) (fun e => by rw [hsides]) ?_
  refine h.recorded.step x hhistory ?_ hreported fun e => ?_
  · rw [hfailed, Bool.or_true]
  · rw [(hmoved e).1, (hmoved e).2, hsides, List.append_nil, List.nil_append]

theorem Sound.unlink (h : Sound s k) (r : Nat) : Sound (s.unlink r) k := by
  rcases unlink_eq s r with heq | heq
  · rw [heq]
    exact h.unpark _
  · rwa [heq]

theorem Sound.unlink_pendingCont (h : Sound s k) (r : Nat) (e : Bool) :
    ((s.unlink r).sides e).pendingCont ≠ some r := by
  intro hr
  have hparked := (h.unlink r).parked e r hr
  rw [unlink_reads] at hparked
  unfold Pair.unlink at hr
  rw [hparked.side] at hr
  split_ifs at hr with hlinked
  · rw [unpark_pendingCont, if_pos rfl] at hr
    exact Option.some_ne_none r hr.symm
  · exact hlinked ⟨hparked.linked, (h.same e).trans hr⟩

theorem Sound.completeRead (h : Sound s k) {r : Nat} {late : Bool} {results : Results Nat}
    (hr : ∀ e, (s.sides e).pendingCont ≠ some r)
    (hreported : Reported ⟨false, (s.reads r).side, (s.reads r).buffers, results, [], false, late,
      (s.reads r).stop, (s.sides (s.reads r).side).buf, s.closed⟩) :
    Sound (completeRead s r late results [] false) k := by
  have hdone := h.finish hr
  refine hdone.congr rfl (fun _ => rfl) (fun _ => rfl) (hdone.recorded.step _ rfl ?_ ?_ fun e => ?_)
  · exact (Bool.or_false _).symm
  · rintro c ⟨⟩
    exact ⟨hreported, rfl, (Bool.or_false _).symm, nofun⟩
  · simp [Record.returned, Record.stored, Completion.moved, TestStream.completeRead, Pair.record]

theorem eof_isError : eof.isError = true := rfl

theorem success_ne_eof : ({} : ErrorCode) ≠ eof := by decide

theorem canceled_ne_eof : canceled ≠ eof := by decide

theorem reported_of_success {c : Completion} (hread : c.write = false)
    (hec : c.results.ec.isError = false) (hlate : c.late = false)
    (hsize : c.bytes.length = c.results.payload) : Reported c where
  eof _ heof := by
    rw [heof] at hec
    exact absurd (hec.symm.trans eof_isError) (by simp)
  late h := absurd (h.symm.trans hlate) (by simp)
  size := by
    rw [Completion.moved, hec, if_neg Bool.false_ne_true, List.length_take, hsize, Nat.min_self]
  whole h := absurd (h.symm.trans hread) (by simp)
  error h := absurd (h.symm.trans hec) (by simp)

theorem Sound.takeBytes (h : Sound s k) {r : Nat} {late : Bool}
    (hr : ∀ e, (s.sides e).pendingCont ≠ some r) (hlate : late = false) :
    Sound (takeBytes s r late) k := by
  have hdone := h.finish hr
  have hlength : (List.take (readCount (s.reads r).buffers (s.sides (s.reads r).side))
      (s.sides (s.reads r).side).buf).length =
        readCount (s.reads r).buffers (s.sides (s.reads r).side) := by
    rw [List.length_take, readCount]
    omega
  refine hdone.congr rfl ?_ ?_ (hdone.recorded.step _ rfl ?_ ?_ ?_)
  · rw [takeBytes_sides]
    exact updateSide_keeps s _ _ Half.pendingCont (by simp)
  · rw [takeBytes_sides]
    exact updateSide_keeps s _ _ Half.pendingClaimed (by simp)
  · exact (Bool.or_false _).symm
  · rintro c ⟨⟩
    exact ⟨reported_of_success rfl rfl hlate hlength, rfl, (Bool.or_false _).symm, nofun⟩
  · intro e
    rw [takeBytes_sides]
    simp only [Record.returned, Record.stored, Completion.moved, true_and,
      Bool.false_eq_true, false_and, if_false, List.append_nil]
    rcases eq_or_ne e (s.reads r).side with rfl | hne
    · rw [if_pos rfl, updateSide_self]
      simp only [ErrorCode.isError]
      rw [List.take_take, Nat.min_self]
      exact List.take_append_drop _ _
    · rw [if_neg hne.symm, updateSide_of_ne _ _ _ hne]
      rfl

theorem Sound.completeFailure (h : Sound s k) {r : Nat} {late : Bool} {ec : ErrorCode}
    (hr : ∀ e, (s.sides e).pendingCont ≠ some r) (hopen : s.closed = false)
    (hlate : late = true → s.closed = true) :
    Sound { TestStream.completeRead { s with closed := true } r late ⟨ec, 0⟩ [] true with
      closed := true } k := by
  refine (h.finish hr).fail _ rfl rfl rfl rfl ?_ fun e => ?_
  · rintro c ⟨⟩
    exact ⟨⟨fun _ _ => .inl rfl, fun hl => absurd ((hlate hl).symm.trans hopen) (by simp),
      by simp [Completion.moved], nofun, fun _ => .inl rfl⟩, rfl, (Bool.or_true _).symm, nofun⟩
  · simp [Record.returned, Record.stored, Completion.moved]

theorem Sound.thrown (h : Sound s k) : Sound { s.record .thrown with closed := true } k :=
  h.fail .thrown rfl rfl rfl rfl nofun fun _ => ⟨rfl, rfl⟩

theorem length_take_flatten (buffers : List Buffer) (mem : Nat → UInt8) :
    (((flatten buffers).map mem).take (bufferSize buffers)).length = bufferSize buffers := by
  rw [List.length_take, List.length_map, length_flatten, bufferSize_eq]
  exact Nat.min_eq_left (Nat.mod_le _ _)

theorem reported_of_open {c : Completion} (hwrite : c.write = true) (hlate : c.late = false)
    (hsize : c.moved.length = c.results.payload)
    (hwhole : c.results.ec.isError = false → c.results.payload = bufferSize c.buffers)
    (herror : c.results.ec.isError = true → c.failed = true) : Reported c where
  eof h := absurd (h.symm.trans hwrite) (by simp)
  late h := absurd (h.symm.trans hlate) (by simp)
  size := hsize
  whole _ := hwhole
  error h := .inl (herror h)

theorem Resumed.sound {r : Nat} {late : Bool} {reply : Fuse.Reply} {out : Pair × Option Pc}
    (hout : Resumed s r late reply out) (h : Sound s k)
    (hr : ∀ e, (s.sides e).pendingCont = some r →
      (s.reads r).canceled = true ∧ bufferEmpty (s.reads r).buffers = false)
    (hlate : late = true → s.closed = true ∧ (s.reads r).canceled = false) :
    Sound out.1 k := by
  have hopen : s.closed = false → late = false := by
    intro hclosed
    rw [← Bool.not_eq_true]
    intro hl
    exact absurd ((hlate hl).1.symm.trans hclosed) (by simp)
  have hfree : (s.reads r).canceled = false → ∀ e, (s.sides e).pendingCont ≠ some r :=
    fun hc e hp => absurd ((hr e hp).1.symm.trans hc) (by simp)
  cases hout with
  | empty hempty =>
      refine h.completeRead (fun e hp => absurd ((hr e hp).2.symm.trans hempty) (by simp)) ?_
      exact ⟨fun _ heof => absurd heof success_ne_eof,
        fun _ => ⟨rfl, .inl (bufferSize_of_empty hempty)⟩, rfl, nofun, nofun⟩
  | canceled hnonempty hcanceled =>
      refine (h.unlink r).completeRead (h.unlink_pendingCont r) ?_
      exact ⟨fun _ heof => absurd heof canceled_ne_eof,
        fun hl => absurd ((hlate hl).2.symm.trans hcanceled) (by simp), rfl, nofun,
        fun _ => .inr (.inr rfl)⟩
  | eof hnonempty hcanceled heof =>
      refine h.completeRead (hfree hcanceled) ?_
      exact ⟨fun _ _ => heof, fun _ => ⟨rfl, .inr (.inl rfl)⟩, rfl, nofun,
        fun _ => .inr (.inl rfl)⟩
  | bytes hnonempty hcanceled hclosed _ _ => exact h.takeBytes (hfree hcanceled) (hopen hclosed)
  | failure hnonempty hcanceled hclosed hec =>
      exact (h.completeFailure (hfree hcanceled) hclosed fun hl => (hlate hl).1).wakes _
  | thrown hnonempty hcanceled hclosed => exact (h.finish (hfree hcanceled)).thrown.wakes _

theorem Sound.record (h : Sound s k) {c : Completion} (hwrite : c.write = true)
    (hpayload : c.results.payload = 0) (hfailed : c.failed = false) (hc : Reported c)
    (hfinds : c.Finds s) : Sound (s.record (.completed c)) k := by
  refine h.congr rfl (fun _ => rfl) (fun _ => rfl) (h.recorded.step _ rfl ?_ ?_ fun e => ?_)
  · exact (hfailed ▸ Bool.or_false _).symm
  · rintro c' ⟨⟩
    exact ⟨hc, hfinds⟩
  · simp [Record.returned, Record.stored, Completion.moved, Pair.record, hwrite, hpayload]

theorem Sound.store (h : Sound s k) {x : Record} {e : Bool} {sv : List UInt8}
    (hfailed : x.failed = false)
    (hreported : ∀ c, x = .completed c → Reported c ∧ c.Finds s)
    (hreturned : ∀ e', x.returned e' = []) (hstored : x.stored (!e) = sv ∧ x.stored e = []) :
    Sound ((s.record x).updateSide (!e) fun side => { side with buf := side.buf ++ sv }) k := by
  refine h.congr rfl ?_ ?_ (h.recorded.step x rfl ?_ hreported fun e' => ?_)
  · exact updateSide_keeps (s.record x) (!e) (fun side => { side with buf := side.buf ++ sv })
      Half.pendingCont fun _ => rfl
  · exact updateSide_keeps (s.record x) (!e) (fun side => { side with buf := side.buf ++ sv })
      Half.pendingClaimed fun _ => rfl
  · exact (hfailed ▸ Bool.or_false _).symm
  · rw [hreturned, List.nil_append]
    rcases eq_or_ne e' (!e) with rfl | hne
    · rw [updateSide_self, hstored.1]
      rfl
    · obtain rfl : e' = e := by simpa using hne
      rw [updateSide_of_ne _ _ _ hne, hstored.2, List.append_nil]
      rfl

theorem Sound.provide (h : Sound s k) (e : Bool) (sv : List UInt8) :
    Sound ((s.record (.provided (!e) sv)).updateSide (!e) fun side =>
      { side with buf := side.buf ++ sv }) k := by
  refine h.store rfl nofun (fun _ => rfl) ?_
  simp [Record.stored]

theorem Sound.updateSide (h : Sound s k) (e : Bool) (f : Half → Half)
    (hf : ∀ side, (f side).buf = side.buf ∧ (f side).pendingCont = side.pendingCont ∧
      (f side).pendingClaimed = side.pendingClaimed) : Sound (s.updateSide e f) k := by
  refine h.congr rfl ?_ ?_ (h.recorded.congr rfl rfl ?_)
  · exact updateSide_keeps s e f Half.pendingCont fun side => (hf side).2.1
  · exact updateSide_keeps s e f Half.pendingClaimed fun side => (hf side).2.2
  · exact updateSide_keeps s e f Half.buf fun side => (hf side).1

theorem Sound.closeEnd (h : Sound s k) (e : Bool) : Sound (TestStream.close s e).1 k :=
  (h.updateSide (!e) (fun side => { side with eof := true }) fun _ => ⟨rfl, rfl, rfl⟩).wakes [!e]

theorem Sound.write (h : Sound s k) {e : Bool} {buffers : List Buffer} {mem : Nat → UInt8}
    {stop : Bool} (hopen : s.closed = false) :
    Sound ((s.wrote e buffers mem stop ⟨{}, bufferSize buffers⟩ false false).updateSide (!e)
      fun side => { side with
        buf := side.buf ++ ((flatten buffers).map mem).take (bufferSize buffers) }) k := by
  refine h.store rfl ?_ (fun _ => ?_) ?_
  · rintro c ⟨⟩
    exact ⟨reported_of_open rfl hopen (length_take_flatten buffers mem) (fun _ => rfl) nofun,
      rfl, by simp [hopen], fun _ => rfl⟩
  · simp [Record.returned]
  · simp [Record.stored, Completion.moved, ErrorCode.isError]

theorem Sound.writeFailure (h : Sound s k) {e : Bool} {buffers : List Buffer}
    {mem : Nat → UInt8} {stop : Bool} {ec : ErrorCode} (hopen : s.closed = false)
    (hec : ec.isError = true) :
    Sound { s.wrote e buffers mem stop ⟨ec, 0⟩ true true with closed := true } k := by
  refine h.fail _ rfl rfl rfl rfl ?_ fun _ => ?_
  · rintro c ⟨⟩
    exact ⟨reported_of_open rfl hopen (by simp [Completion.moved]) (by simp [hec]) fun _ => rfl,
      rfl, (Bool.or_true _).symm, fun _ => rfl⟩
  · simp [Record.returned, Record.stored, Completion.moved]

theorem Wrote.sound {e : Bool} {buffers : List Buffer} {mem : Nat → UInt8} {stop : Bool}
    {out : Pair × Option Pc} (hout : Wrote s e buffers mem stop out) (h : Sound s k) :
    Sound out.1 k := by
  cases hout with
  | empty hempty =>
      exact h.record rfl rfl rfl
        ⟨nofun, fun _ => ⟨rfl, .inl hempty⟩, by simp [Completion.moved], fun _ _ => hempty.symm,
          nofun⟩
        ⟨rfl, (Bool.or_false _).symm, fun _ => rfl⟩
  | canceled _ hstop =>
      exact h.record rfl rfl rfl
        ⟨nofun, fun _ => ⟨rfl, .inr (.inr ⟨rfl, hstop, rfl⟩)⟩, rfl, nofun,
          fun _ => .inr (.inr rfl)⟩
        ⟨rfl, (Bool.or_false _).symm, fun _ => rfl⟩
  | eof _ hclosed =>
      exact h.record rfl rfl rfl
        ⟨nofun, fun _ => ⟨rfl, .inr (.inl rfl)⟩, rfl, nofun, fun _ => .inr (.inl rfl)⟩
        ⟨rfl, by simp [hclosed], fun _ => rfl⟩
  | bytes _ hopen => exact (h.write hopen).wakes _
  | failure _ hopen hec => exact (h.writeFailure hopen hec).wakes _
  | thrown _ => exact h.thrown.wakes _

theorem Sound.updateFlags (h : Sound s k) (r : Nat) (g : Read → Read)
    (hg : ∀ a, g a = { a with
      active := (g a).active, stop := (g a).stop, registered := (g a).registered })
    (hfresh : (s.reads r).phase = .fresh → (g (s.reads r)).registered = false) :
    Sound (s.updateRead r g) k := by
  refine h.updateRead r g (fun _ _ => rfl) ?_ ?_ ?_ ?_
  · rw [hg]
    exact h.posts r
  · intro e hp _
    rw [hg]
    exact ⟨hp.side, hp.linked, hp.phase, hp.posted⟩
  · rw [hg]
    exact h.nonempty r
  · intro hf
    rw [hg] at hf
    obtain ⟨hclaimed, hcanceled, -⟩ := h.fresh r hf
    refine ⟨?_, ?_, hfresh hf⟩
    · rw [hg]
      exact hclaimed
    · rw [hg]
      exact hcanceled

theorem Sound.callbackReturns (h : Sound s k) (r : Nat) (inConstructor : Bool) :
    Sound (callbackReturns s r inConstructor) k := by
  unfold TestStream.callbackReturns
  split_ifs
  · exact h.updateFlags r _ (fun _ => rfl) fun hf => (h.fresh r hf).2.2
  · exact h

theorem Sound.not_parked_of_fresh (h : Sound s k) {r : Nat} (hr : (s.reads r).phase = .fresh)
    (e : Bool) : (s.sides e).pendingCont ≠ some r :=
  fun hp => (h.parked e r hp).phase_ne_fresh hr

theorem Sound.start (h : Sound s k) {r : Nat} (hr : (s.reads r).phase = .fresh) (e : Bool)
    (buffers : List Buffer) : Sound (s.start r e buffers) k := by
  have hupdate : Sound (s.updateRead r fun a => { a with side := e, buffers := buffers }) k := by
    refine h.updateRead r _ (fun _ _ => rfl) (h.posts r) ?_ ?_ (h.fresh r)
    · intro e' _ hp
      exact absurd hp (h.not_parked_of_fresh hr e')
    · simp [hr]
  exact hupdate.congr rfl (fun _ => rfl) (fun _ => rfl)
    (hupdate.recorded.congr rfl rfl fun _ => rfl)

theorem Sound.link (h : Sound s k) {r : Nat} {e : Bool} (hr : (s.reads r).Parked e) :
    Sound (s.updateSide e fun side =>
      { side with pendingCont := some r, pendingClaimed := some r }) k where
  posts := h.posts
  same e' := by
    rcases eq_or_ne e' e with rfl | hne
    · rw [updateSide_self]
    · rw [updateSide_of_ne _ _ _ hne]
      exact h.same e'
  parked e' r' hr' := by
    rcases eq_or_ne e' e with rfl | hne
    · rw [updateSide_self] at hr'
      rw [← Option.some.inj hr']
      exact hr
    · rw [updateSide_of_ne _ _ _ hne] at hr'
      exact h.parked e' r' hr'
  nonempty := h.nonempty
  fresh := h.fresh
  recorded := h.recorded.congr rfl rfl (updateSide_keeps s e (fun side =>
    { side with pendingCont := some r, pendingClaimed := some r }) Half.buf (by simp))

theorem Sound.park (h : Sound s k) {r : Nat} {e : Bool} (race : Bool)
    (hr : (s.reads r).phase = .fresh) (hside : (s.reads r).side = e)
    (hbuffers : bufferEmpty (s.reads r).buffers = false) : Sound (s.park r e race) k := by
  have hposts := h.posts r
  rw [(h.fresh r hr).1, Bool.toNat_false] at hposts
  refine Sound.link ?_ ?_
  · refine h.updateRead r _ (fun _ _ => rfl) (h.posts r) ?_ (fun _ => hbuffers) (by simp)
    intro e' _ hp
    exact absurd hp (h.not_parked_of_fresh hr e')
  · rw [updateRead_self]
    exact ⟨hside, rfl, .inl rfl, fun hne => absurd (Nat.eq_zero_of_add_eq_zero_right hposts) hne⟩

end Sound

section Step

variable {s : Pair} {pc : Pc} {reply : Fuse.Reply} {a : Entry} {k : Nat → Nat}

theorem phase_of_resumes {r : Nat}
    (h : (Pc.awaitResume r).resumes r ≤ if (s.reads r).phase = .resuming then 1 else 0) :
    (s.reads r).phase = .resuming := by
  by_contra hne
  simp [Pc.resumes, hne] at h

theorem Sound.canceled_of_resuming (h : Sound s k) {r : Nat}
    (hr : (s.reads r).phase = .resuming) {e : Bool} (hp : (s.sides e).pendingCont = some r) :
    (s.reads r).canceled = true := by
  rcases (h.parked e r hp).phase with hsuspended | ⟨-, hcanceled⟩
  · exact absurd (hsuspended.symm.trans hr) (by simp)
  · exact hcanceled

theorem Step.sound {out : Pair × Option Pc} (hstep : Step s reply pc out)
    (h : Sound s fun r => k r + pc.claims r)
    (hresuming : ∀ r, pc.resumes r ≤ if (s.reads r).phase = .resuming then 1 else 0)
    (hrunning : ∀ r, pc.runsCallback r = true → (s.reads r).phase ≠ .fresh) :
    Sound out.1 fun r => k r + out.2.elim 0 (Pc.claims r) := by
  cases hstep with
  | @awaitResume r _ hout =>
      have hphase := phase_of_resumes (hresuming r)
      have hzero : ∀ v, out.2.elim 0 (Pc.claims v) = 0 :=
        fun v => hout.waking.elim_zero fun _ => rfl
      simp only [hzero]
      refine hout.sound ?_ ?_ (by simp)
      · exact h.updateFlags r _ (fun _ => rfl) fun hf => absurd (hf.symm.trans hphase) (by simp)
      · intro e hp
        rw [updateRead_self]
        exact ⟨h.canceled_of_resuming hphase hp, h.nonempty r (.inr hphase)⟩
  | cancelLost _ => exact h.callbackReturns _ _
  | @cancelClaim r inConstructor hclaimed =>
      have hposts := h.posts r
      simp only [Pc.claims, Nat.add_zero, hclaimed, Bool.toNat_false] at hposts
      dsimp only
      refine h.updateRead r _ ?_ ?_ ?_ ?_ ?_
      · intro v hv
        simp [Pc.claims, hv.symm]
      · simp only [Option.elim_some, Pc.claims, if_true, Bool.toNat_true]
        omega
      · intro e hp _
        exact ⟨hp.side, hp.linked, hp.phase, hp.posted⟩
      · exact h.nonempty r
      · intro hfresh
        exact absurd hfresh (hrunning r (by simp [Pc.runsCallback]))
  | @cancelPost r inConstructor =>
      have hposts := h.posts r
      simp only [Pc.claims, if_true] at hposts
      dsimp only
      refine h.updateRead r _ ?_ ?_ ?_ ?_ ?_
      · intro v hv
        simp [Pc.claims, hv.symm]
      · simp only [Option.elim_some, Pc.claims, Nat.add_zero]
        omega
      · intro e hp _
        exact ⟨hp.side, hp.linked, hp.phase.imp_right fun h => ⟨h.1, rfl⟩, fun _ => rfl⟩
      · exact h.nonempty r
      · intro hfresh
        exact absurd hfresh (hrunning r (by simp [Pc.runsCallback]))
  | cancelReturns => exact h.callbackReturns _ _
  | @posted rest =>
      have hzero : ∀ v, (wakes s rest).2.elim 0 (Pc.claims v) = 0 :=
        fun v => (waking_wakes s rest).elim_zero fun _ => rfl
      simp only [hzero]
      exact h.wakes rest

theorem Entered.sound {out : Pair × Option Pc} (henter : Entered s a out) (h : Sound s k) :
    Sound out.1 k := by
  cases henter with
  | @completes r e buffers _ _ _ hfresh hready hout =>
      have hstart := h.start hfresh e buffers
      refine hout.sound hstart ?_ ?_
      · intro e' hp
        exact absurd hp (h.not_parked_of_fresh hfresh e')
      · intro hclosed
        refine ⟨hclosed, ?_⟩
        simp only [Pair.start, updateRead_self]
        exact (h.fresh r hfresh).2.1
  | @stopped r e buffers _ _ hfresh hready =>
      have hclosed : s.closed = false := by
        simp only [awaitReady, Bool.or_eq_false_iff] at hready
        exact hready.1.1.2
      have hstart := (h.start hfresh e buffers).unlink r
      have hdone : Sound (((s.start r e buffers).unlink r).updateRead r fun a =>
          { a with canceled := true, phase := .done }) k := by
        refine hstart.updateRead r _ (fun _ _ => rfl) (hstart.posts r) ?_ (by simp) (by simp)
        intro e' _ hp
        exact absurd hp ((h.start hfresh e buffers).unlink_pendingCont r e')
      rw [unlink_updateRead _ _ _ rfl rfl]
      refine hdone.congr ?_ (fun _ => rfl) (fun _ => rfl) (hdone.recorded.step _ rfl ?_ ?_ ?_)
      · simp [TestStream.completeRead, Pair.record, Pair.finish, Pair.updateRead]
      · exact (Bool.or_false _).symm
      · rintro c ⟨⟩
        exact ⟨⟨fun _ heof => absurd heof canceled_ne_eof,
          fun hl => absurd hl (by simp [hclosed]), rfl, by simp, fun _ => .inr (.inr rfl)⟩,
          rfl, (Bool.or_false _).symm, by simp⟩
      · intro e'
        simp [Record.returned, Record.stored, Completion.moved, TestStream.completeRead,
          Pair.record, Pair.finish]
  | @parks r e buffers race _ hfresh hready =>
      simp only [awaitReady, Bool.or_eq_false_iff] at hready
      refine (h.start hfresh e buffers).park race ?_ ?_ ?_
      · simpa [Pair.start] using hfresh
      · simp [Pair.start]
      · simpa [Pair.start] using hready.1.1.1
  | @resume r hphase hposts =>
      dsimp only
      refine h.updateRead r _ (fun _ _ => rfl) (h.posts r) ?_ (fun _ => h.nonempty r (.inl hphase))
        (by simp)
      intro e hp _
      exact ⟨hp.side, hp.linked, .inr ⟨rfl, hp.posted hposts⟩, hp.posted⟩
  | @destroy r hphase =>
      have hdestroyed : Sound ((s.unlink r).updateRead r fun a =>
          { a with registered := a.registered && !a.active, phase := .destroyed }) k := by
        refine (h.unlink r).updateRead r _ (fun _ _ => rfl) ((h.unlink r).posts r) ?_ (by simp)
          (by simp)
        intro e _ hp
        exact absurd hp (h.unlink_pendingCont r e)
      exact hdestroyed.congr rfl (fun _ => rfl) (fun _ => rfl)
        (hdestroyed.recorded.congr rfl rfl fun _ => rfl)
  | writeSome hout => exact hout.sound h
  | provide => exact (h.provide _ _).wakes _
  | close => exact h.closeEnd _
  | @setMaxReadSize e n =>
      exact h.updateSide e (fun side => { side with maxReadSize := n }) fun _ => ⟨rfl, rfl, rfl⟩
  | @requestStop r =>
      dsimp only
      exact h.updateFlags r _ (fun _ => rfl) fun hf => (h.fresh r hf).2.2
  | @stopCallback r _ =>
      dsimp only
      exact h.updateFlags r _ (fun _ => rfl) fun _ => rfl

theorem Entered.next {out : Pair × Option Pc} (henter : Entered s a out) (h : Sound s k) {pc : Pc}
    (hq : out.2 = some pc) (r : Nat) :
    pc.claims r = 0 ∧ (pc.runsCallback r = true → (out.1.reads r).phase ≠ .fresh) := by
  have hwaking : Waking out.2 →
      pc.claims r = 0 ∧ (pc.runsCallback r = true → (out.1.reads r).phase ≠ .fresh) := by
    intro hw
    obtain ⟨rest, rfl⟩ := hw pc hq
    exact ⟨rfl, by simp [Pc.runsCallback]⟩
  cases henter with
  | completes _ _ hout => exact hwaking hout.waking
  | stopped _ _ | destroy _ | setMaxReadSize | requestStop => exact hwaking waking_none
  | @parks v e _ race _ _ _ =>
      cases race with
      | false => exact hwaking waking_none
      | true =>
          rw [← Option.some.inj hq]
          refine ⟨rfl, ?_⟩
          simp only [Pc.runsCallback, decide_eq_true_eq]
          rintro rfl
          simp [Pair.park]
  | resume _ _ =>
      rw [← Option.some.inj hq]
      exact ⟨rfl, by simp [Pc.runsCallback]⟩
  | writeSome hout => exact hwaking hout.waking
  | provide | close => exact hwaking (waking_wakes _ _)
  | @stopCallback v hregistered =>
      rw [← Option.some.inj hq]
      refine ⟨rfl, ?_⟩
      simp only [Pc.runsCallback, decide_eq_true_eq]
      rintro rfl hfresh
      rw [updateRead_self] at hfresh
      exact absurd (hregistered.symm.trans (h.fresh v hfresh).2.2) (by simp)

end Step

/-- What holds of a pair and the activations between steps. -/
structure Invariant (s : Pair) (fs : List (Frame Pc)) : Prop where
  sound : Sound s fun r => total (Pc.claims r) fs
  resuming : ∀ r, total (Pc.resumes r) fs = if (s.reads r).phase = .resuming then 1 else 0
  running : ∀ f ∈ fs, ∀ r, f.pc.runsCallback r = true → (s.reads r).phase ≠ .fresh
  outstanding : ∀ r, (s.reads r).phase = .suspended ∨ (s.reads r).phase = .resuming →
    r ∈ s.outstanding

theorem Invariant.resumes_le {s : Pair} {l r : List (Frame Pc)} {t : Nat} {pc : Pc}
    (h : Invariant s (l ++ ⟨t, pc⟩ :: r)) (v : Nat) :
    pc.resumes v ≤ if (s.reads v).phase = .resuming then 1 else 0 := by
  rw [← h.resuming, total_split]
  exact Nat.le_add_left _ _

theorem invariant_initial : Invariant {} [] where
  sound :=
    { posts := fun _ => rfl
      same := fun _ => rfl
      parked := fun _ _ h => nomatch h
      nonempty := by simp
      fresh := by simp
      recorded := ⟨fun _ => rfl, by simp [Pair.log], by simp, by simp⟩ }
  resuming := by simp [total]
  running := by simp
  outstanding := by simp

theorem invariant_preserved (ok : State Pair Pc → Event Fuse.Reply Entry → Bool) :
    machine.Preserves ok Invariant := by
  refine Machine.Preserves.ofSteps ?_ ?_
  · intro s l t pc r reply s' q hinv _ _ _ hexec
    have hstep := exec_step hexec
    have hrunning := (forall_split.mp hinv.running).2
    refine ⟨?_, ?_, ?_, ?_⟩
    · have hsound := hinv.sound
      simp only [total_split] at hsound
      simp only [total_replace]
      exact hstep.sound hsound hinv.resumes_le hrunning
    · intro v
      have hzero : q.elim 0 (Pc.resumes v) = 0 := by
        cases q with
        | none => rfl
        | some pc' => exact (hstep.next rfl v).1
      have hresuming := hinv.resuming v
      rw [total_split, Pc.resumes_eq] at hresuming
      rw [total_replace, hzero, Nat.add_zero, hstep.phase v]
      rcases eq_or_ne pc (.awaitResume v) with hpc | hpc
      · simp only [hpc, if_true] at hresuming ⊢
        rw [if_neg (by simp)]
        split_ifs at hresuming
        omega
      · simp only [hpc, if_false] at hresuming ⊢
        exact hresuming
    · refine forall_replace.mpr ⟨?_, ?_⟩
      · intro f hf v hv
        rw [hstep.phase v]
        split_ifs
        · simp
        · exact (forall_split.mp hinv.running).1 f hf v hv
      · rintro pc' rfl v hv
        rw [hstep.phase v]
        split_ifs
        · simp
        · exact hrunning v ((hstep.next rfl v).2 hv)
    · intro v hv
      refine hstep.outstanding (hinv.outstanding v ?_) hv
      rw [hstep.phase v] at hv
      split_ifs at hv
      · simp at hv
      · exact hv
  · intro s fs t a s' q hinv _ _ _ henter
    have hentered := enter_entered henter
    refine ⟨?_, ?_, ?_, fun v => hentered.outstanding (hinv.outstanding v)⟩
    · have hzero : ∀ v, q.elim 0 (Pc.claims v) = 0 := by
        intro v
        cases q with
        | none => rfl
        | some pc => exact (hentered.next hinv.sound rfl v).1
      simp only [total_enter, hzero, Nat.add_zero]
      exact hentered.sound hinv.sound
    · intro v
      rw [total_enter, hinv.resuming v]
      exact (hentered.resumes v).symm
    · refine forall_enter.mpr ⟨?_, ?_⟩
      · intro f hf v hv hfresh
        have hne := hinv.running f hf v hv
        rcases hentered.phase v with hp | ⟨hp, -⟩ | ⟨-, hp⟩ | ⟨-, -, hp⟩
        · exact hne (hp.symm.trans hfresh)
        · exact hne hp
        · exact absurd (hp.symm.trans hfresh) (by simp)
        · exact absurd (hp.symm.trans hfresh) (by simp)
      · rintro pc rfl v hv
        exact (hentered.next hinv.sound rfl v).2 hv

end Capy.TestStream
