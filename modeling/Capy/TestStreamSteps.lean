import Capy.TestStream

namespace Capy.TestStream

open Buffers
open CallStack
open Join (ErrorCode Results)

section Update

variable (s : Pair) (e : Bool) (r : Nat) (f : Half → Half) (g : Read → Read)

@[simp]
theorem updateSide_reads : (s.updateSide e f).reads = s.reads := rfl

@[simp]
theorem updateSide_closed : (s.updateSide e f).closed = s.closed := rfl

@[simp]
theorem updateSide_outstanding : (s.updateSide e f).outstanding = s.outstanding := rfl

@[simp]
theorem updateSide_history : (s.updateSide e f).history = s.history := rfl

@[simp]
theorem updateSide_self : (s.updateSide e f).sides e = f (s.sides e) := by
  simp [Pair.updateSide]

theorem updateSide_of_ne {e' : Bool} (h : e' ≠ e) : (s.updateSide e f).sides e' = s.sides e' := by
  simp [Pair.updateSide, h]

theorem updateSide_keeps {β : Type*} (π : Half → β) (hπ : ∀ side, π (f side) = π side)
    (e' : Bool) : π ((s.updateSide e f).sides e') = π (s.sides e') := by
  rcases eq_or_ne e' e with rfl | h
  · rw [updateSide_self, hπ]
  · rw [updateSide_of_ne _ _ _ h]

@[simp]
theorem updateRead_sides : (s.updateRead r g).sides = s.sides := rfl

@[simp]
theorem updateRead_closed : (s.updateRead r g).closed = s.closed := rfl

@[simp]
theorem updateRead_outstanding : (s.updateRead r g).outstanding = s.outstanding := rfl

@[simp]
theorem updateRead_history : (s.updateRead r g).history = s.history := rfl

@[simp]
theorem updateRead_self : (s.updateRead r g).reads r = g (s.reads r) := by
  simp [Pair.updateRead]

theorem updateRead_of_ne {r' : Nat} (h : r' ≠ r) : (s.updateRead r g).reads r' = s.reads r' := by
  simp [Pair.updateRead, h]

theorem updateRead_keeps {β : Type*} (π : Read → β) (hπ : ∀ a, π (g a) = π a) (r' : Nat) :
    π ((s.updateRead r g).reads r') = π (s.reads r') := by
  rcases eq_or_ne r' r with rfl | h
  · rw [updateRead_self, hπ]
  · rw [updateRead_of_ne _ _ _ h]

end Update

@[simp]
theorem unpark_reads (s : Pair) (e : Bool) : (s.unpark e).reads = s.reads := rfl

theorem unpark_pendingCont {s : Pair} {e e' : Bool} :
    ((s.unpark e).sides e').pendingCont = if e' = e then none else (s.sides e').pendingCont := by
  split_ifs with h
  · simp [Pair.unpark, h]
  · simp [Pair.unpark, updateSide_of_ne _ _ _ h]

theorem unpark_pendingClaimed {s : Pair} {e e' : Bool} :
    ((s.unpark e).sides e').pendingClaimed =
      if e' = e then none else (s.sides e').pendingClaimed := by
  split_ifs with h
  · simp [Pair.unpark, h]
  · simp [Pair.unpark, updateSide_of_ne _ _ _ h]

theorem unpark_buf (s : Pair) (e e' : Bool) : ((s.unpark e).sides e').buf = (s.sides e').buf :=
  updateSide_keeps s e _ Half.buf (by simp) e'

theorem unpark_eof (s : Pair) (e e' : Bool) : ((s.unpark e).sides e').eof = (s.sides e').eof :=
  updateSide_keeps s e _ Half.eof (by simp) e'

theorem unpark_maxReadSize (s : Pair) (e e' : Bool) :
    ((s.unpark e).sides e').maxReadSize = (s.sides e').maxReadSize :=
  updateSide_keeps s e _ Half.maxReadSize (by simp) e'

theorem unlink_eq (s : Pair) (r : Nat) :
    s.unlink r = s.unpark (s.reads r).side ∨ s.unlink r = s := by
  unfold Pair.unlink
  split_ifs
  · exact .inl rfl
  · exact .inr rfl

@[simp]
theorem unlink_reads (s : Pair) (r : Nat) : (s.unlink r).reads = s.reads := by
  rcases unlink_eq s r with h | h
  · rw [h, unpark_reads]
  · rw [h]

@[simp]
theorem unlink_outstanding (s : Pair) (r : Nat) : (s.unlink r).outstanding = s.outstanding := by
  rcases unlink_eq s r with h | h
  · rw [h]
    rfl
  · rw [h]

@[simp]
theorem unlink_closed (s : Pair) (r : Nat) : (s.unlink r).closed = s.closed := by
  rcases unlink_eq s r with h | h
  · rw [h]
    rfl
  · rw [h]

theorem unlink_updateRead (s : Pair) (r : Nat) (g : Read → Read)
    (hside : (g (s.reads r)).side = (s.reads r).side)
    (hlinked : (g (s.reads r)).linked = (s.reads r).linked) :
    (s.updateRead r g).unlink r = (s.unlink r).updateRead r g := by
  unfold Pair.unlink
  simp only [updateRead_self, updateRead_sides, hside, hlinked]
  split_ifs <;> rfl

theorem takeBytes_sides (s : Pair) (r : Nat) (late : Bool) :
    (takeBytes s r late).sides = (s.updateSide (s.reads r).side fun side =>
      { side with buf := side.buf.drop (readCount (s.reads r).buffers side) }).sides :=
  rfl

/-- Whether a call of `maybe_fail` injects a failure. -/
def fails : Fuse.Reply → Bool
  | .none => false
  | .code ec => ec.isError
  | .thrown _ => true

/-- What `await_resume` does after the stop callback. -/
inductive Resumed (s : Pair) (r : Nat) (late : Bool) (reply : Fuse.Reply) :
    Pair × Option Pc → Prop
  | empty (hempty : bufferEmpty (s.reads r).buffers = true) :
      Resumed s r late reply (completeRead s r late ⟨{}, 0⟩ [] false, none)
  | canceled (hnonempty : bufferEmpty (s.reads r).buffers = false)
      (hcanceled : (s.reads r).canceled = true) :
      Resumed s r late reply (completeRead (s.unlink r) r late ⟨canceled, 0⟩ [] false, none)
  | eof (hnonempty : bufferEmpty (s.reads r).buffers = false)
      (hcanceled : (s.reads r).canceled = false)
      (heof : s.closed = true ∨ (s.sides (s.reads r).side).buf = []) :
      Resumed s r late reply (completeRead s r late ⟨eof, 0⟩ [] false, none)
  | bytes (hnonempty : bufferEmpty (s.reads r).buffers = false)
      (hcanceled : (s.reads r).canceled = false) (hopen : s.closed = false)
      (hbytes : (s.sides (s.reads r).side).eof = true → (s.sides (s.reads r).side).buf ≠ [])
      (hreply : (s.sides (s.reads r).side).eof = false → fails reply = false) :
      Resumed s r late reply (takeBytes s r late, none)
  | failure {ec : ErrorCode} (hnonempty : bufferEmpty (s.reads r).buffers = false)
      (hcanceled : (s.reads r).canceled = false) (hopen : s.closed = false)
      (hec : ec.isError = true) :
      Resumed s r late reply
        (closePair (completeRead { s with closed := true } r late ⟨ec, 0⟩ [] true))
  | thrown (hnonempty : bufferEmpty (s.reads r).buffers = false)
      (hcanceled : (s.reads r).canceled = false) (hopen : s.closed = false) :
      Resumed s r late reply (closePair ((s.finish r).record .thrown))

theorem awaitResume_resumed (s : Pair) (r : Nat) (late : Bool) (reply : Fuse.Reply) :
    Resumed s r late reply (awaitResume s r late reply) := by
  unfold awaitResume
  dsimp only
  split_ifs with hempty hcanceled hclosed heof hside
  · exact .empty hempty
  · exact .canceled (Bool.eq_false_of_not_eq_true hempty) hcanceled
  · exact .eof (Bool.eq_false_of_not_eq_true hempty) (Bool.eq_false_of_not_eq_true hcanceled)
      (.inl hclosed)
  · simp only [Bool.and_eq_true, List.isEmpty_iff] at heof
    exact .eof (Bool.eq_false_of_not_eq_true hempty) (Bool.eq_false_of_not_eq_true hcanceled)
      (.inr heof.2)
  · simp only [Bool.and_eq_true, List.isEmpty_iff, not_and] at heof
    exact .bytes (Bool.eq_false_of_not_eq_true hempty) (Bool.eq_false_of_not_eq_true hcanceled)
      (Bool.eq_false_of_not_eq_true hclosed) heof fun h => absurd (h.symm.trans hside) (by simp)
  · have hn := Bool.eq_false_of_not_eq_true hempty
    have hc := Bool.eq_false_of_not_eq_true hcanceled
    have ho := Bool.eq_false_of_not_eq_true hclosed
    have hbytes : fails reply = false → Resumed s r late reply (takeBytes s r late, none) :=
      fun hreply => .bytes hn hc ho (absurd · hside) fun _ => hreply
    cases reply with
    | none => exact hbytes rfl
    | thrown ec => exact .thrown hn hc ho
    | code ec =>
        dsimp only
        split_ifs with hec
        · exact .failure hn hc ho hec
        · exact hbytes (Bool.eq_false_of_not_eq_true hec)

theorem Resumed.of_canceled {s : Pair} {r : Nat} {late : Bool} {reply : Fuse.Reply}
    {out : Pair × Option Pc}
    (h : Resumed s r late reply out) (hnonempty : bufferEmpty (s.reads r).buffers = false)
    (hcanceled : (s.reads r).canceled = true) :
    out = (completeRead (s.unlink r) r late ⟨TestStream.canceled, 0⟩ [] false, none) := by
  cases h with
  | canceled _ _ => rfl
  | empty h => simp [hnonempty] at h
  | eof _ h _ | bytes _ h _ _ _ | failure _ h _ _ | thrown _ h _ => simp [hcanceled] at h

/-- `write_some` has completed. -/
def Pair.wrote (s : Pair) (e : Bool) (buffers : List Buffer) (mem : Nat → UInt8) (stop : Bool)
    (results : Results Nat) (failed closed : Bool) : Pair :=
  s.record (.completed ⟨true, e, buffers, results, (flatten buffers).map mem, failed, s.closed,
    stop, (s.sides e).buf, closed⟩)

/-- What `write_some` does. -/
inductive Wrote (s : Pair) (e : Bool) (buffers : List Buffer) (mem : Nat → UInt8) (stop : Bool) :
    Pair × Option Pc → Prop
  | empty (hempty : bufferSize buffers = 0) :
      Wrote s e buffers mem stop (s.wrote e buffers mem stop ⟨{}, 0⟩ false s.closed, none)
  | canceled (hnonempty : bufferSize buffers ≠ 0) (hstop : stop = true) :
      Wrote s e buffers mem stop (s.wrote e buffers mem stop ⟨canceled, 0⟩ false s.closed, none)
  | eof (hnonempty : bufferSize buffers ≠ 0) (hclosed : s.closed = true) :
      Wrote s e buffers mem stop (s.wrote e buffers mem stop ⟨eof, 0⟩ false true, none)
  | bytes (hnonempty : bufferSize buffers ≠ 0) (hopen : s.closed = false) :
      Wrote s e buffers mem stop
        (append (s.wrote e buffers mem stop ⟨{}, bufferSize buffers⟩ false false) e
          (((flatten buffers).map mem).take (bufferSize buffers)))
  | failure {ec : ErrorCode} (hnonempty : bufferSize buffers ≠ 0) (hopen : s.closed = false)
      (hec : ec.isError = true) :
      Wrote s e buffers mem stop
        (closePair (s.wrote e buffers mem stop ⟨ec, 0⟩ true true))
  | thrown (hopen : s.closed = false) :
      Wrote s e buffers mem stop (closePair (s.record .thrown))

theorem writeSome_wrote (s : Pair) (e : Bool) (buffers : List Buffer) (mem : Nat → UInt8)
    (stop : Bool) (reply : Fuse.Reply) :
    Wrote s e buffers mem stop (writeSome s e buffers mem stop reply) := by
  unfold writeSome
  dsimp only
  split_ifs with hempty hstop hclosed
  · exact .empty hempty
  · exact .canceled hempty hstop
  · exact .eof hempty hclosed
  · have ho := Bool.eq_false_of_not_eq_true hclosed
    cases reply with
    | none => exact .bytes hempty ho
    | thrown ec => exact .thrown ho
    | code ec =>
        dsimp only
        split_ifs with hec
        · exact .failure hempty ho hec
        · exact .bytes hempty ho

section Phase

variable (s : Pair) (r : Nat)

@[simp]
theorem wake_phase (e : Bool) : ((s.wake e).1.reads r).phase = (s.reads r).phase := by
  unfold Pair.wake Pair.post
  split
  · rfl
  · split
    · rw [updateRead_keeps _ _ _ Read.phase (by simp) r]
      rfl
    · split_ifs
      · rfl
      · rw [updateRead_keeps _ _ _ Read.phase (by simp) r,
          updateRead_keeps _ _ _ Read.phase (by simp) r]
        rfl

@[simp]
theorem wakes_phase (es : List Bool) : ((wakes s es).1.reads r).phase = (s.reads r).phase := by
  induction es generalizing s with
  | nil => rfl
  | cons e rest ih =>
      unfold wakes
      split_ifs
      · exact wake_phase s r e
      · rw [ih, wake_phase]

theorem wakes_keeps {β : Type*} (π : Pair → β) (hside : ∀ s e f, π (s.updateSide e f) = π s)
    (hread : ∀ s r g, π (s.updateRead r g) = π s) (es : List Bool) : π (wakes s es).1 = π s := by
  induction es generalizing s with
  | nil => rfl
  | cons e rest ih =>
      have hwake : π (s.wake e).1 = π s := by
        unfold Pair.wake Pair.post Pair.unpark
        split
        · rfl
        · split
          · rw [hread, hside]
          · split_ifs
            · rw [hside]
            · rw [hread, hread, hside]
      unfold wakes
      split_ifs
      · exact hwake
      · rw [ih, hwake]

@[simp]
theorem wakes_outstanding (es : List Bool) : (wakes s es).1.outstanding = s.outstanding :=
  wakes_keeps s Pair.outstanding (fun _ _ _ => rfl) (fun _ _ _ => rfl) es

@[simp]
theorem wakes_closed (es : List Bool) : (wakes s es).1.closed = s.closed :=
  wakes_keeps s Pair.closed (fun _ _ _ => rfl) (fun _ _ _ => rfl) es

theorem finish_reads :
    (s.finish r).reads = (s.updateRead r fun a => { a with phase := .done }).reads := rfl

theorem completeRead_reads (late : Bool) (results : Results Nat) (bytes : List UInt8)
    (failed : Bool) : (completeRead s r late results bytes failed).reads = (s.finish r).reads := rfl

theorem takeBytes_reads (late : Bool) : (takeBytes s r late).reads = (s.finish r).reads := rfl

theorem finish_phase (r' : Nat) :
    ((s.finish r).reads r').phase = if r' = r then .done else (s.reads r').phase := by
  rw [finish_reads]
  split_ifs with h
  · rw [h, updateRead_self]
  · rw [updateRead_of_ne _ _ _ h]

theorem completeRead_phase (late : Bool) (results : Results Nat) (bytes : List UInt8)
    (failed : Bool) (r' : Nat) :
    ((completeRead s r late results bytes failed).reads r').phase =
      if r' = r then .done else (s.reads r').phase :=
  finish_phase s r r'

theorem Resumed.phase {s : Pair} {r : Nat} {late : Bool} {reply : Fuse.Reply}
    {out : Pair × Option Pc}
    (h : Resumed s r late reply out) (r' : Nat) :
    (out.1.reads r').phase = if r' = r then .done else (s.reads r').phase := by
  cases h with
  | empty _ | eof _ _ _ | bytes _ _ _ _ _ => exact finish_phase s r r'
  | canceled _ _ =>
      rw [← unlink_reads s r]
      exact finish_phase (s.unlink r) r r'
  | failure _ _ _ _ | thrown _ _ _ =>
      rw [closePair, wakes_phase]
      exact finish_phase s r r'

theorem Wrote.phase {s : Pair} {e : Bool} {buffers : List Buffer} {mem : Nat → UInt8}
    {stop : Bool} {out : Pair × Option Pc} (h : Wrote s e buffers mem stop out) (r : Nat) :
    (out.1.reads r).phase = (s.reads r).phase := by
  cases h with
  | empty _ | canceled _ _ | eof _ _ => rfl
  | bytes _ _ => exact wakes_phase _ _ _
  | failure _ _ _ | thrown _ => exact wakes_phase _ _ _

theorem Resumed.outstanding {s : Pair} {r : Nat} {late : Bool} {reply : Fuse.Reply}
    {out : Pair × Option Pc}
    (h : Resumed s r late reply out) : out.1.outstanding = s.outstanding.erase r := by
  cases h with
  | empty _ | eof _ _ _ | bytes _ _ _ _ _ => rfl
  | canceled _ _ => exact congrArg (List.erase · r) (unlink_outstanding s r)
  | failure _ _ _ _ | thrown _ _ _ =>
      rw [closePair, wakes_outstanding]
      rfl

theorem Wrote.outstanding {s : Pair} {e : Bool} {buffers : List Buffer} {mem : Nat → UInt8}
    {stop : Bool} {out : Pair × Option Pc} (h : Wrote s e buffers mem stop out) :
    out.1.outstanding = s.outstanding := by
  cases h with
  | empty _ | canceled _ _ | eof _ _ => rfl
  | bytes _ _ | failure _ _ _ | thrown _ => exact wakes_outstanding _ _

end Phase

/-- A stop callback that has claimed `r` and has to post it. -/
def Pc.claims (r : Nat) : Pc → Nat
  | .cancelPost v _ => if v = r then 1 else 0
  | _ => 0

/-- The executor has resumed `r`. -/
def Pc.resumes (r : Nat) : Pc → Nat
  | .awaitResume v => if v = r then 1 else 0
  | _ => 0

theorem Pc.resumes_eq (r : Nat) (pc : Pc) :
    pc.resumes r = if pc = .awaitResume r then 1 else 0 := by
  cases pc <;> simp [Pc.resumes]

/-- What a call leaves on its thread: nothing, or the wakes it still has to make. -/
def Waking (q : Option Pc) : Prop := ∀ pc, q = some pc → ∃ rest, pc = .posting rest

theorem waking_none : Waking none := fun _ h => nomatch h

theorem waking_wakes (s : Pair) (es : List Bool) : Waking (wakes s es).2 := by
  induction es generalizing s with
  | nil => exact waking_none
  | cons e rest ih =>
      unfold wakes
      split_ifs
      · rintro pc ⟨⟩
        exact ⟨rest, rfl⟩
      · exact ih _

theorem Waking.elim_zero {q : Option Pc} (h : Waking q) {w : Pc → Nat}
    (hw : ∀ rest, w (.posting rest) = 0) : q.elim 0 w = 0 := by
  cases q with
  | none => rfl
  | some pc =>
      obtain ⟨rest, rfl⟩ := h pc rfl
      exact hw rest

theorem Resumed.waking {s : Pair} {r : Nat} {late : Bool} {reply : Fuse.Reply}
    {out : Pair × Option Pc}
    (h : Resumed s r late reply out) : Waking out.2 := by
  cases h with
  | empty _ | canceled _ _ | eof _ _ _ | bytes _ _ _ _ _ => exact waking_none
  | failure _ _ _ _ | thrown _ _ _ => exact waking_wakes _ _

theorem Wrote.waking {s : Pair} {e : Bool} {buffers : List Buffer} {mem : Nat → UInt8}
    {stop : Bool} {out : Pair × Option Pc} (h : Wrote s e buffers mem stop out) :
    Waking out.2 := by
  cases h with
  | empty _ | canceled _ _ | eof _ _ => exact waking_none
  | bytes _ _ | failure _ _ _ | thrown _ => exact waking_wakes _ _

section Step

variable {s s' : Pair} {fs : List (Frame Pc)} {t : Nat} {pc : Pc} {reply : Fuse.Reply} {a : Entry}
  {q : Option Pc}

/-- What one step of an activation does. -/
inductive Step (s : Pair) (reply : Fuse.Reply) : Pc → Pair × Option Pc → Prop
  | awaitResume {r : Nat} {out : Pair × Option Pc}
      (hout : Resumed (s.updateRead r fun a =>
        { a with registered := a.registered && !a.active, active := false }) r false reply out) :
      Step s reply (.awaitResume r) out
  | cancelLost {r : Nat} {inConstructor : Bool} (hclaimed : (s.reads r).claimed = true) :
      Step s reply (.cancelClaim r inConstructor) (callbackReturns s r inConstructor, none)
  | cancelClaim {r : Nat} {inConstructor : Bool} (hclaimed : (s.reads r).claimed = false) :
      Step s reply (.cancelClaim r inConstructor)
        (s.updateRead r fun a => { a with claimed := true }, some (.cancelPost r inConstructor))
  | cancelPost {r : Nat} {inConstructor : Bool} :
      Step s reply (.cancelPost r inConstructor) (s.updateRead r fun a =>
        { a with canceled := true, posts := a.posts + 1 }, some (.cancelPosting r inConstructor))
  | cancelReturns {r : Nat} {inConstructor : Bool} :
      Step s reply (.cancelPosting r inConstructor) (callbackReturns s r inConstructor, none)
  | posted {rest : List Bool} : Step s reply (.posting rest) (wakes s rest)

theorem exec_step (h : exec s fs t pc reply = some (s', q)) : Step s reply pc (s', q) := by
  cases pc with
  | awaitResume r =>
      simp only [exec] at h
      split_ifs at h
      rw [← Option.some.inj h]
      exact .awaitResume (awaitResume_resumed _ r false reply)
  | cancelClaim r inConstructor =>
      simp only [exec] at h
      split_ifs at h with hclaimed
      · rw [← Option.some.inj h]
        exact .cancelLost hclaimed
      · rw [← Option.some.inj h]
        exact .cancelClaim (Bool.eq_false_of_not_eq_true hclaimed)
  | cancelPost r inConstructor =>
      rw [← Option.some.inj h]
      have hpost : (s.updateRead r fun a => { a with canceled := true }).post r =
          s.updateRead r fun a => { a with canceled := true, posts := a.posts + 1 } := by
        simp [Pair.post, Pair.updateRead]
      rw [hpost]
      exact .cancelPost
  | cancelPosting r inConstructor =>
      rw [← Option.some.inj h]
      exact .cancelReturns
  | posting rest =>
      rw [← Option.some.inj h]
      exact .posted

/-- The awaitable of a read that is awaited. -/
def Pair.start (s : Pair) (r : Nat) (e : Bool) (buffers : List Buffer) : Pair :=
  { s.updateRead r fun a => { a with side := e, buffers := buffers } with
    outstanding := s.outstanding ++ [r] }

/-- `await_suspend` links the read to its side and registers its stop callback. -/
def Pair.park (s : Pair) (r : Nat) (e : Bool) (race : Bool) : Pair :=
  (s.updateRead r fun a =>
    { a with
      linked := true
      phase := .suspended
      stop := race
      registered := !race
      active := !race }).updateSide e fun side =>
        { side with pendingCont := some r, pendingClaimed := some r }

/-- What starting a call does. -/
inductive Entered (s : Pair) : Entry → Pair × Option Pc → Prop
  | completes {r : Nat} {e : Bool} {buffers : List Buffer} {race : Bool} {reply : Fuse.Reply}
      {out : Pair × Option Pc} (hfresh : (s.reads r).phase = .fresh)
      (hready : awaitReady s e buffers = true)
      (hout : Resumed (s.start r e buffers) r s.closed reply out) :
      Entered s (.readSome r e buffers race reply) out
  | stopped {r : Nat} {e : Bool} {buffers : List Buffer} {race : Bool} {reply : Fuse.Reply}
      (hfresh : (s.reads r).phase = .fresh) (hready : awaitReady s e buffers = false) :
      Entered s (.readSome r e buffers race reply)
        (completeRead (((s.start r e buffers).updateRead r fun a =>
          { a with canceled := true }).unlink r) r s.closed ⟨canceled, 0⟩ [] false, none)
  | parks {r : Nat} {e : Bool} {buffers : List Buffer} {race : Bool} {reply : Fuse.Reply}
      (hfresh : (s.reads r).phase = .fresh) (hready : awaitReady s e buffers = false) :
      Entered s (.readSome r e buffers race reply) ((s.start r e buffers).park r e race,
        if race then some (.cancelClaim r true) else none)
  | resume {r : Nat} (hphase : (s.reads r).phase = .suspended) (hposts : (s.reads r).posts ≠ 0) :
      Entered s (.resume r)
        (s.updateRead r fun a => { a with phase := .resuming }, some (.awaitResume r))
  | destroy {r : Nat} (hphase : (s.reads r).phase = .suspended) :
      Entered s (.destroy r) ({ (s.unlink r).updateRead r fun a =>
          { a with registered := a.registered && !a.active, phase := .destroyed } with
        outstanding := s.outstanding.erase r }, none)
  | writeSome {e : Bool} {buffers : List Buffer} {mem : Nat → UInt8} {stop : Bool}
      {reply : Fuse.Reply} {out : Pair × Option Pc} (hout : Wrote s e buffers mem stop out) :
      Entered s (.writeSome e buffers mem stop reply) out
  | provide {e : Bool} {sv : List UInt8} : Entered s (.provide e sv) (provide s e sv)
  | close {e : Bool} : Entered s (.close e) (close s e)
  | setMaxReadSize {e : Bool} {n : Fin sizeValues} :
      Entered s (.setMaxReadSize e n)
        (s.updateSide e fun side => { side with maxReadSize := n }, none)
  | requestStop {r : Nat} :
      Entered s (.requestStop r) (s.updateRead r fun a => { a with stop := true }, none)
  | stopCallback {r : Nat} (hregistered : (s.reads r).registered = true) :
      Entered s (.stopCallback r) (s.updateRead r fun a => { a with registered := false },
        some (.cancelClaim r false))

theorem awaitReady_nonempty {e : Bool} {buffers : List Buffer}
    (h : awaitReady s e buffers = false) : bufferEmpty buffers = false := by
  simp only [awaitReady, Bool.or_eq_false_iff] at h
  exact h.1.1.1

theorem enter_entered (h : enter s fs t a = some (s', q)) : Entered s a (s', q) := by
  cases a with
  | readSome r e buffers race reply =>
      simp only [enter] at h
      split_ifs at h with hfresh
      rw [← Option.some.inj h]
      cases hready : awaitReady s e buffers with
      | true =>
          simp only [readSome, hready, if_true]
          exact .completes hfresh hready (awaitResume_resumed _ _ _ _)
      | false =>
          cases hstop : (s.reads r).stop with
          | true =>
              simp only [readSome, hready, hstop, Bool.false_eq_true, if_false, if_true]
              have hnonempty := awaitReady_nonempty hready
              rw [(awaitResume_resumed _ r s.closed reply).of_canceled (by simpa using hnonempty)
                (by simp)]
              exact .stopped hfresh hready
          | false =>
              simp only [readSome, hready, hstop, Bool.false_eq_true, if_false]
              exact .parks hfresh hready
  | resume r =>
      simp only [enter] at h
      split_ifs at h with hphase
      rw [← Option.some.inj h]
      exact .resume hphase.1 hphase.2
  | destroy r =>
      simp only [enter] at h
      split_ifs at h with hphase
      rw [← Option.some.inj h]
      exact .destroy hphase.1
  | writeSome e buffers mem stop reply =>
      rw [← Option.some.inj h]
      exact .writeSome (writeSome_wrote s e buffers mem stop reply)
  | provide e sv =>
      rw [← Option.some.inj h]
      exact .provide
  | close e =>
      rw [← Option.some.inj h]
      exact .close
  | setMaxReadSize e n =>
      rw [← Option.some.inj h]
      exact .setMaxReadSize
  | requestStop r =>
      rw [← Option.some.inj h]
      exact .requestStop
  | stopCallback r =>
      simp only [enter] at h
      split_ifs at h with hstop
      rw [← Option.some.inj h]
      exact .stopCallback hstop.2

@[simp]
theorem callbackReturns_phase (s : Pair) (v : Nat) (inConstructor : Bool) (r : Nat) :
    ((callbackReturns s v inConstructor).reads r).phase = (s.reads r).phase := by
  unfold callbackReturns
  split_ifs
  · exact updateRead_keeps s v (fun a => { a with active := true }) Read.phase (by simp) r
  · rfl

theorem Step.phase {out : Pair × Option Pc} (hstep : Step s reply pc out) (r : Nat) :
    (out.1.reads r).phase = if pc = .awaitResume r then .done else (s.reads r).phase := by
  cases hstep with
  | @awaitResume v _ hout =>
      rw [hout.phase]
      rcases eq_or_ne r v with rfl | hne
      · simp
      · simp [hne, hne.symm, updateRead_of_ne]
  | @cancelClaim v _ _ =>
      exact updateRead_keeps s v (fun a => { a with claimed := true }) Read.phase (by simp) r
  | @cancelPost v _ =>
      exact updateRead_keeps s v (fun a => { a with canceled := true, posts := a.posts + 1 })
        Read.phase (by simp) r
  | cancelLost _ | cancelReturns | posted => simp

/-- The activation that takes the place of another one resumes nothing, and runs the
same stop callback if any. -/
theorem Step.next {out : Pair × Option Pc} (hstep : Step s reply pc out) {pc' : Pc}
    (hq : out.2 = some pc') (r : Nat) :
    pc'.resumes r = 0 ∧ (pc'.runsCallback r = true → pc.runsCallback r = true) := by
  have hwaking : Waking out.2 →
      pc'.resumes r = 0 ∧ (pc'.runsCallback r = true → pc.runsCallback r = true) := by
    intro hw
    obtain ⟨rest, rfl⟩ := hw pc' hq
    exact ⟨rfl, by simp [Pc.runsCallback]⟩
  cases hstep with
  | awaitResume hout => exact hwaking hout.waking
  | cancelLost _ | cancelReturns => exact hwaking waking_none
  | cancelClaim _ | cancelPost =>
      rw [← Option.some.inj hq]
      exact ⟨rfl, id⟩
  | posted => exact hwaking (waking_wakes _ _)

theorem Entered.phase {out : Pair × Option Pc} (henter : Entered s a out) (r : Nat) :
    (out.1.reads r).phase = (s.reads r).phase ∨
      (s.reads r).phase = .fresh ∧
        ((out.1.reads r).phase = .done ∨ (out.1.reads r).phase = .suspended) ∨
      (s.reads r).phase = .suspended ∧ (out.1.reads r).phase = .destroyed ∨
      a = .resume r ∧ (s.reads r).phase = .suspended ∧ (out.1.reads r).phase = .resuming := by
  cases henter with
  | @completes v e buffers _ _ _ hfresh hready hout =>
      rw [hout.phase]
      rcases eq_or_ne r v with rfl | hne
      · simp [hfresh]
      · simp [hne, Pair.start, updateRead_of_ne]
  | @stopped v e buffers _ _ hfresh hready =>
      rw [completeRead_phase]
      rcases eq_or_ne r v with rfl | hne
      · simp [hfresh]
      · simp [hne, Pair.start, updateRead_of_ne]
  | @parks v e buffers race _ hfresh hready =>
      rcases eq_or_ne r v with rfl | hne
      · simp [hfresh, Pair.park]
      · simp [hne, Pair.start, Pair.park, updateRead_of_ne]
  | @resume v hphase hposts =>
      rcases eq_or_ne r v with rfl | hne
      · simp [hphase]
      · simp [hne, updateRead_of_ne]
  | @destroy v hphase =>
      rcases eq_or_ne r v with rfl | hne
      · simp [hphase]
      · simp [hne, updateRead_of_ne]
  | writeSome hout => exact .inl (hout.phase r)
  | provide => exact .inl (wakes_phase _ _ _)
  | close => exact .inl (wakes_phase _ _ _)
  | setMaxReadSize => exact .inl rfl
  | @requestStop v =>
      exact .inl (updateRead_keeps s v (fun a => { a with stop := true }) Read.phase (by simp) r)
  | @stopCallback v _ =>
      exact .inl (updateRead_keeps s v (fun a => { a with registered := false }) Read.phase
        (by simp) r)

theorem Entered.resumes {out : Pair × Option Pc} (henter : Entered s a out) (r : Nat) :
    (if (out.1.reads r).phase = .resuming then 1 else 0) =
      (if (s.reads r).phase = .resuming then 1 else 0) + out.2.elim 0 (Pc.resumes r) := by
  have hsame : a ≠ .resume r → out.2.elim 0 (Pc.resumes r) = 0 →
      (if (out.1.reads r).phase = .resuming then 1 else 0) =
        (if (s.reads r).phase = .resuming then 1 else 0) + out.2.elim 0 (Pc.resumes r) := by
    intro hne hzero
    rw [hzero, Nat.add_zero]
    rcases henter.phase r with hp | ⟨hp, hp' | hp'⟩ | ⟨hp, hp'⟩ | ⟨rfl, -⟩
    · rw [hp]
    · simp [hp, hp']
    · simp [hp, hp']
    · simp [hp, hp']
    · exact absurd rfl hne
  have hwaking : a ≠ .resume r → Waking out.2 → _ := fun hne hw =>
    hsame hne (hw.elim_zero fun _ => rfl)
  cases henter with
  | completes _ _ hout => exact hwaking (by simp) hout.waking
  | stopped _ _ | destroy _ | setMaxReadSize | requestStop => exact hwaking (by simp) waking_none
  | @parks _ _ _ race _ _ _ =>
      refine hsame (by simp) ?_
      cases race <;> rfl
  | @resume v hphase hposts =>
      rcases eq_or_ne r v with rfl | hne
      · simp [hphase, Pc.resumes]
      · simp [hne.symm, Pc.resumes, updateRead_of_ne, hne]
  | writeSome hout => exact hwaking (by simp) hout.waking
  | provide | close => exact hwaking (by simp) (waking_wakes _ _)
  | stopCallback _ => exact hsame (by simp) rfl

theorem Step.outstanding {out : Pair × Option Pc} (hstep : Step s reply pc out) {r : Nat}
    (hr : r ∈ s.outstanding)
    (hphase : (out.1.reads r).phase = .suspended ∨ (out.1.reads r).phase = .resuming) :
    r ∈ out.1.outstanding := by
  cases hstep with
  | @awaitResume v _ hout =>
      rw [hout.phase] at hphase
      rcases eq_or_ne r v with rfl | hne
      · simp at hphase
      · rw [hout.outstanding]
        exact (List.mem_erase_of_ne hne).mpr hr
  | cancelLost _ | cancelReturns =>
      unfold callbackReturns
      split_ifs <;> exact hr
  | cancelClaim _ | cancelPost => exact hr
  | posted =>
      rw [wakes_outstanding]
      exact hr

theorem Entered.outstanding {out : Pair × Option Pc} (henter : Entered s a out) {r : Nat}
    (hr : (s.reads r).phase = .suspended ∨ (s.reads r).phase = .resuming → r ∈ s.outstanding)
    (hphase : (out.1.reads r).phase = .suspended ∨ (out.1.reads r).phase = .resuming) :
    r ∈ out.1.outstanding := by
  cases henter with
  | @completes v e buffers _ _ _ hfresh _ hout =>
      rw [hout.phase] at hphase
      rcases eq_or_ne r v with rfl | hne
      · simp at hphase
      · rw [if_neg hne, Pair.start, updateRead_of_ne _ _ _ hne] at hphase
        rw [hout.outstanding]
        exact (List.mem_erase_of_ne hne).mpr (List.mem_append_left _ (hr hphase))
  | @stopped v e buffers _ _ hfresh _ =>
      rw [completeRead_phase] at hphase
      rcases eq_or_ne r v with rfl | hne
      · simp at hphase
      · rw [if_neg hne, unlink_reads, updateRead_of_ne _ _ _ hne, Pair.start,
          updateRead_of_ne _ _ _ hne] at hphase
        refine (List.mem_erase_of_ne hne).mpr ?_
        rw [unlink_outstanding]
        exact List.mem_append_left _ (hr hphase)
  | @parks v e buffers race _ _ _ =>
      rcases eq_or_ne r v with rfl | hne
      · exact List.mem_append_right _ List.mem_cons_self
      · simp only [Pair.park, Pair.start, updateSide_reads, updateRead_of_ne _ _ _ hne] at hphase
        exact List.mem_append_left _ (hr hphase)
  | @resume v hsuspended _ =>
      rcases eq_or_ne r v with rfl | hne
      · exact hr (.inl hsuspended)
      · rw [updateRead_of_ne _ _ _ hne] at hphase
        exact hr hphase
  | @destroy v _ =>
      rcases eq_or_ne r v with rfl | hne
      · simp at hphase
      · rw [updateRead_of_ne _ _ _ hne, unlink_reads] at hphase
        exact (List.mem_erase_of_ne hne).mpr (hr hphase)
  | writeSome hout =>
      rw [hout.phase] at hphase
      rw [hout.outstanding]
      exact hr hphase
  | provide =>
      unfold TestStream.provide append at hphase ⊢
      rw [wakes_phase] at hphase
      rw [wakes_outstanding]
      exact hr hphase
  | close =>
      unfold TestStream.close at hphase ⊢
      rw [wakes_phase] at hphase
      rw [wakes_outstanding]
      exact hr hphase
  | setMaxReadSize => exact hr hphase
  | requestStop | stopCallback _ =>
      rw [updateRead_keeps _ _ _ Read.phase (by simp)] at hphase
      exact hr hphase

end Step

end Capy.TestStream
