import Capy.Transfer

namespace Capy.WriteNow

open Capy.Buffers
open Capy.Transfer
open Capy.Join (ErrorCode Results)

/-- A write stream that tells whether an operation completes in `await_ready`.
An operation that does not, and is dropped before it is awaited, leaves the
stream as it was. -/
structure EagerStream (σ : Type) extends Stream σ where
  awaitReady : σ → List Buffer → Bool

variable {σ : Type}

/-- The loop that awaits every operation. -/
def awaitLoop (s : Stream σ) (totalSize : Nat) :
    Nat → σ → ConsumingBuffers → Nat → Option (Outcome σ)
  | 0, _, _, _ => none
  | fuel + 1, st, cb, total =>
      if total < totalSize then
        let r := (s.transferSome st cb.data).1
        let st' := (s.transferSome st cb.data).2
        let total' := (total + r.payload) % sizeValues
        if r.ec.isError then some ⟨r.ec, total', [⟨cb.data, r⟩], st'⟩
        else
          (awaitLoop s totalSize fuel st' (cb.consume r.payload) total').map
            (Outcome.after ⟨cb.data, r⟩)
      else some ⟨{}, total, [], st⟩

/-- How the synchronous loop ends: the coroutine returns, or it leaves the loop. -/
inductive Sync (σ : Type) where
  | returned (out : Outcome σ)
  | left (st : σ) (cb : ConsumingBuffers) (total : Nat) (calls : List Call)

def Sync.after (c : Call) : Sync σ → Sync σ
  | .returned out => .returned (out.after c)
  | .left st cb total calls => .left st cb total (c :: calls)

/-- The loop over the operations that complete in `await_ready`. On an error it
returns before it has counted the bytes of that operation. -/
def syncLoop (s : EagerStream σ) (totalSize : Nat) :
    Nat → σ → ConsumingBuffers → Nat → Option (Sync σ)
  | 0, _, _, _ => none
  | fuel + 1, st, cb, total =>
      if total < totalSize then
        if s.awaitReady st cb.data then
          let r := (s.transferSome st cb.data).1
          let st' := (s.transferSome st cb.data).2
          if r.ec.isError then some (.returned ⟨r.ec, total, [⟨cb.data, r⟩], st'⟩)
          else
            (syncLoop s totalSize fuel st' (cb.consume r.payload)
              ((total + r.payload) % sizeValues)).map (Sync.after ⟨cb.data, r⟩)
        else some (.left st cb total [])
      else some (.left st cb total [])

/-- `operator()` under `BOOST_CAPY_WRITE_NOW_WORKAROUND`. -/
def writeNowWorkaround (fuel : Nat) (s : EagerStream σ) (st : σ) (buffers : List Buffer) :
    Option (Outcome σ) :=
  awaitLoop s.toStream (bufferSize buffers) fuel st (consumingBuffers buffers) 0

/-- What the eager `operator()` does after its synchronous loop. -/
def afterSync (fuel : Nat) (s : EagerStream σ) (totalSize : Nat) :
    Sync σ → Option (Outcome σ)
  | .returned out => some out
  | .left st cb total calls =>
      if totalSize ≤ total then some ⟨{}, total, calls, st⟩
      else
        (awaitLoop s.toStream totalSize fuel st cb total).map fun out =>
          { out with calls := calls ++ out.calls }

/-- The eager `operator()`. -/
def writeNow (fuel : Nat) (s : EagerStream σ) (st : σ) (buffers : List Buffer) :
    Option (Outcome σ) :=
  (syncLoop s (bufferSize buffers) fuel st (consumingBuffers buffers) 0).bind
    (afterSync fuel s (bufferSize buffers))

/-- Operations that complete in `await_ready` follow one another from here, with
`left` bytes to write, up to one that reports an error after writing some bytes. -/
inductive ReadyError (s : EagerStream σ) : σ → ConsumingBuffers → Nat → Prop
  | here {st cb left} : 0 < left → s.awaitReady st cb.data = true →
      (s.transferSome st cb.data).1.ec.isError = true →
      0 < (s.transferSome st cb.data).1.payload → ReadyError s st cb left
  | next {st cb left} : 0 < left → s.awaitReady st cb.data = true →
      (s.transferSome st cb.data).1.ec.isError = false →
      ReadyError s (s.transferSome st cb.data).2
        (cb.consume (s.transferSome st cb.data).1.payload)
        (left - (s.transferSome st cb.data).1.payload) →
      ReadyError s st cb left

/-- Both versions return, with the same results after the same bytes, and count
every byte that the stream reported. -/
def Agree (s : EagerStream σ) (st : σ) (buffers : List Buffer) : Prop :=
  ∃ eager plain, Returns (fun fuel => writeNow fuel s st buffers) eager ∧
    Returns (fun fuel => writeNowWorkaround fuel s st buffers) plain ∧
    eager.ec = plain.ec ∧ eager.count = plain.count ∧
    eager.calls.flatMap Call.moved = plain.calls.flatMap Call.moved ∧
    eager.count = reported eager.calls ∧ plain.count = reported plain.calls

theorem awaitLoop_mono {s : Stream σ} {totalSize total fuel more : Nat} {st : σ}
    {cb : ConsumingBuffers} {out : Outcome σ} (hle : fuel ≤ more)
    (h : awaitLoop s totalSize fuel st cb total = some out) :
    awaitLoop s totalSize more st cb total = some out := by
  induction fuel generalizing more st cb total out with
  | zero => simp [awaitLoop] at h
  | succ fuel ih =>
      obtain ⟨more, rfl⟩ : ∃ k, more = k + 1 := ⟨more - 1, by omega⟩
      simp only [awaitLoop] at h ⊢
      split_ifs at h ⊢ with hmore hstop
      · exact h
      · obtain ⟨rest, hrest, rfl⟩ := Option.map_eq_some_iff.mp h
        rw [ih (by omega) hrest]
        rfl
      · exact h

theorem syncLoop_mono {s : EagerStream σ} {totalSize total fuel more : Nat} {st : σ}
    {cb : ConsumingBuffers} {sync : Sync σ} (hle : fuel ≤ more)
    (h : syncLoop s totalSize fuel st cb total = some sync) :
    syncLoop s totalSize more st cb total = some sync := by
  induction fuel generalizing more st cb total sync with
  | zero => simp [syncLoop] at h
  | succ fuel ih =>
      obtain ⟨more, rfl⟩ : ∃ k, more = k + 1 := ⟨more - 1, by omega⟩
      simp only [syncLoop] at h ⊢
      split_ifs at h ⊢ with hmore hready hstop
      · exact h
      · obtain ⟨rest, hrest, rfl⟩ := Option.map_eq_some_iff.mp h
        rw [ih (by omega) hrest]
        rfl
      · exact h
      · exact h

section Loops

variable {s : EagerStream σ} {bytes : List Nat} {st : σ} {cb : ConsumingBuffers} {total : Nat}

/-- What the synchronous loop has found out about the transfer `plain` that
awaits every operation. -/
inductive Compares (s : EagerStream σ) (totalSize fuel : Nat) (st : σ)
    (cb : ConsumingBuffers) (total : Nat) (plain : Outcome σ) : Sync σ → Prop
  | returned {out : Outcome σ} {lost : Nat} : out.ec = plain.ec → out.calls = plain.calls →
      plain.count = out.count + lost →
      (ReadyError s st cb (totalSize - total) ↔ 0 < lost) →
      Compares s totalSize fuel st cb total plain (.returned out)
  | left {st' cb' total' calls rest} : ¬ ReadyError s st cb (totalSize - total) →
      awaitLoop s.toStream totalSize fuel st' cb' total' = some rest →
      plain = { rest with calls := calls ++ rest.calls } →
      Compares s totalSize fuel st cb total plain (.left st' cb' total' calls)

theorem readyError_step (hready : s.awaitReady st cb.data = true) {left : Nat} (hleft : 0 < left)
    (hgood : (s.transferSome st cb.data).1.ec.isError = false) :
    ReadyError s st cb left ↔ ReadyError s (s.transferSome st cb.data).2
      (cb.consume (s.transferSome st cb.data).1.payload)
      (left - (s.transferSome st cb.data).1.payload) := by
  constructor
  · intro h
    cases h with
    | here _ _ herror _ => simp [hgood] at herror
    | next _ _ _ hnext => exact hnext
  · exact .next hleft hready hgood

theorem readyError_iff_of_error (hready : s.awaitReady st cb.data = true) {left : Nat}
    (hleft : 0 < left) (herror : (s.transferSome st cb.data).1.ec.isError = true) :
    ReadyError s st cb left ↔ 0 < (s.transferSome st cb.data).1.payload := by
  constructor
  · intro h
    cases h with
    | here _ _ _ hsome => exact hsome
    | next _ _ hgood _ => simp [herror] at hgood
  · exact .here hleft hready herror

theorem Compares.after {totalSize fuel total' : Nat} {plain : Outcome σ} {sync : Sync σ}
    {c : Call} {st' : σ} {cb' : ConsumingBuffers}
    (h : Compares s totalSize fuel st' cb' total' plain sync)
    (hstep : ReadyError s st cb (totalSize - total) ↔
      ReadyError s st' cb' (totalSize - total')) :
    Compares s totalSize (fuel + 1) st cb total (plain.after c) (sync.after c) := by
  cases h with
  | returned hec hcalls hcount hlost =>
      refine .returned hec ?_ hcount (hstep.trans hlost)
      simp only [Outcome.after, hcalls]
  | left hno hrest hplain =>
      refine .left (fun h => hno (hstep.mp h)) (awaitLoop_mono (Nat.le_succ _) hrest) ?_
      subst hplain
      rfl

theorem awaitLoop_returns (hs : s.toStream.Conforms) {fuel : Nat}
    (hpos : Position bytes cb total) (hfuel : bytes.length % sizeValues - total < fuel) :
    ∃ plain, awaitLoop s.toStream (bytes.length % sizeValues) fuel st cb total = some plain ∧
      plain.count = total + reported plain.calls := by
  induction fuel generalizing st cb total with
  | zero => omega
  | succ fuel ih =>
      simp only [awaitLoop]
      by_cases hmore : total < bytes.length % sizeValues
      · rw [if_pos hmore]
        obtain ⟨hadd, hpos', hone⟩ := hpos.advance (hs st cb.data) hmore
        rw [hadd]
        split_ifs with herror
        · exact ⟨_, rfl, by simp [reported]⟩
        · have := hone (by simpa using herror)
          obtain ⟨plain, hplain, hcount⟩ :=
            ih hpos' (by omega)
          rw [hplain]
          refine ⟨_, rfl, ?_⟩
          simp only [Outcome.after, reported, List.map_cons, List.sum_cons] at hcount ⊢
          omega
      · rw [if_neg hmore]
        exact ⟨_, rfl, rfl⟩

theorem syncLoop_compares (hs : s.toStream.Conforms) {fuel : Nat}
    (hpos : Position bytes cb total) (hfuel : bytes.length % sizeValues - total < fuel) :
    ∃ plain sync,
      awaitLoop s.toStream (bytes.length % sizeValues) fuel st cb total = some plain ∧
      plain.count = total + reported plain.calls ∧
      syncLoop s (bytes.length % sizeValues) fuel st cb total = some sync ∧
      Compares s (bytes.length % sizeValues) fuel st cb total plain sync := by
  induction fuel generalizing st cb total with
  | zero => omega
  | succ fuel ih =>
      obtain ⟨plain, hplain, hcount⟩ : ∃ plain, awaitLoop s.toStream
          (bytes.length % sizeValues) (fuel + 1) st cb total = some plain ∧
            plain.count = total + reported plain.calls :=
        awaitLoop_returns hs hpos hfuel
      by_cases hmore : total < bytes.length % sizeValues
      · cases hready : s.awaitReady st cb.data
        · -- the operation would suspend: the loop is left where it stands
          refine ⟨plain, .left st cb total [], hplain, hcount, ?_, .left ?_ hplain rfl⟩
          · simp only [syncLoop, if_pos hmore, hready, Bool.false_eq_true, if_false]
          · intro h
            cases h <;> simp_all
        · have hleft : 0 < bytes.length % sizeValues - total := by omega
          cases herror : (s.transferSome st cb.data).1.ec.isError
          · obtain ⟨hadd, hpos', hone⟩ := hpos.advance (hs st cb.data) hmore
            have := hone herror
            obtain ⟨plain', sync, hplain', -, hsync, hcompares⟩ :=
              @ih (s.transferSome st cb.data).2 _ _ hpos' (by omega)
            simp only [awaitLoop, if_pos hmore, herror, Bool.false_eq_true, if_false, hadd,
              hplain', Option.map_some, Option.some.injEq] at hplain
            subst hplain
            refine ⟨_, sync.after ⟨cb.data, (s.transferSome st cb.data).1⟩, ?_, hcount, ?_,
              hcompares.after ?_⟩
            · simp only [awaitLoop, if_pos hmore, herror, Bool.false_eq_true, if_false, hadd,
                hplain', Option.map_some]
            · simp only [syncLoop, if_pos hmore, hready, if_true, herror, Bool.false_eq_true,
                if_false, hadd, hsync, Option.map_some]
            · rw [Nat.sub_add_eq]
              exact readyError_step hready hleft herror
          · obtain ⟨hadd, -, -⟩ := hpos.advance (hs st cb.data) hmore
            simp only [awaitLoop, if_pos hmore, herror, if_true, hadd,
              Option.some.injEq] at hplain
            subst hplain
            refine ⟨_, .returned ⟨_, total, [⟨cb.data, (s.transferSome st cb.data).1⟩],
              (s.transferSome st cb.data).2⟩, ?_, hcount, ?_,
              .returned rfl rfl rfl (readyError_iff_of_error hready hleft herror)⟩
            · simp only [awaitLoop, if_pos hmore, herror, if_true, hadd]
            · simp only [syncLoop, if_pos hmore, hready, if_true, herror]
      · refine ⟨plain, .left st cb total [], hplain, hcount, ?_, .left ?_ hplain rfl⟩
        · simp only [syncLoop, if_neg hmore]
        · intro h
          cases h <;> omega

end Loops

/-- A synchronous loop that was left goes on as the plain loop does. -/
theorem afterSync_left {s : EagerStream σ} {totalSize fuel total : Nat} {st : σ}
    {cb : ConsumingBuffers} {calls : List Call} {rest : Outcome σ}
    (h : awaitLoop s.toStream totalSize fuel st cb total = some rest) :
    afterSync fuel s totalSize (.left st cb total calls) =
      some { rest with calls := calls ++ rest.calls } := by
  simp only [afterSync]
  split_ifs with hdone
  · cases fuel with
    | zero => simp [awaitLoop] at h
    | succ fuel =>
        rw [awaitLoop, if_neg (Nat.not_lt.mpr hdone)] at h
        obtain rfl := Option.some.inj h
        simp
  · rw [h]
    rfl

/-- Over a conforming stream the two versions of `operator()` agree exactly when
no operation that completes in `await_ready`, after others that did so and
succeeded, reports an error after writing some bytes. -/
theorem write_now_agrees_iff (s : EagerStream σ) (hs : s.toStream.Conforms) (st : σ)
    (buffers : List Buffer) :
    Agree s st buffers ↔
      ¬ ReadyError s st (consumingBuffers buffers) (bufferSize buffers) := by
  have hsize : (flatten buffers).length % sizeValues = bufferSize buffers := by
    rw [bufferSize_eq, length_flatten]
  have hfuel : (flatten buffers).length % sizeValues - 0 < bufferSize buffers + 1 := by omega
  obtain ⟨plain, sync, hplain, hcount, hsync, hcompares⟩ :=
    @syncLoop_compares _ s _ st _ _ hs _ (position_consumingBuffers buffers) hfuel
  rw [hsize] at hplain hsync hcompares
  have hreturns : Returns (fun fuel => writeNowWorkaround fuel s st buffers) plain :=
    ⟨_, fun more hmore => awaitLoop_mono hmore hplain⟩
  have hcount : plain.count = reported plain.calls := by omega
  cases hcompares with
  | @returned out lost hec hcalls hlost hiff =>
      rw [Nat.sub_zero] at hiff
      have heager : Returns (fun fuel => writeNow fuel s st buffers) out := by
        refine ⟨bufferSize buffers + 1, fun more hmore => ?_⟩
        change writeNow more s st buffers = some out
        rw [writeNow, syncLoop_mono hmore hsync]
        rfl
      rw [hiff]
      constructor
      · rintro ⟨eager, plain', heager', hreturns', -, hsame, -⟩
        obtain rfl := heager.unique heager'
        obtain rfl := hreturns.unique hreturns'
        omega
      · intro hzero
        refine ⟨out, plain, heager, hreturns, hec, by omega, by rw [hcalls], ?_, hcount⟩
        rw [hcalls]
        omega
  | @left st' cb' total' calls rest hno hrest hsame =>
      rw [Nat.sub_zero] at hno
      have heager : Returns (fun fuel => writeNow fuel s st buffers) plain := by
        refine ⟨bufferSize buffers + 1, fun more hmore => ?_⟩
        change writeNow more s st buffers = some plain
        rw [writeNow, syncLoop_mono hmore hsync, hsame]
        exact afterSync_left (awaitLoop_mono hmore hrest)
      exact iff_of_true ⟨plain, plain, heager, hreturns, rfl, rfl, rfl, hcount, hcount⟩ hno

/-- A stream that writes one byte of two and then reports an error, all in
`await_ready`. -/
def shortWrite : EagerStream Unit where
  transferSome _ bufs := (⟨⟨32, 1⟩, bufferSize bufs - 1⟩, ())
  awaitReady _ _ := true

theorem shortWrite_conforms : shortWrite.toStream.Conforms := by
  intro st bufs
  refine ⟨fun _ hgood => ?_, fun hpos _ => ?_, fun hempty => ?_⟩
  · simp [shortWrite, ErrorCode.isError] at hgood
  · exact Nat.sub_lt hpos Nat.one_pos
  · simp [shortWrite, bufferSize_of_empty hempty]

def twoBytes : List Buffer := [⟨0, 2, by decide⟩]

/-- The eager version reports no byte written where the plain one reports one. -/
theorem write_now_shortWrite :
    shortWrite.toStream.Conforms ∧
      (writeNow 3 shortWrite () twoBytes).map (fun out => (out.ec, out.count)) =
        some (⟨32, 1⟩, 0) ∧
      (writeNowWorkaround 3 shortWrite () twoBytes).map (fun out => (out.ec, out.count)) =
        some (⟨32, 1⟩, 1) ∧
      ¬ Agree shortWrite () twoBytes := by
  refine ⟨shortWrite_conforms, by decide, by decide, ?_⟩
  have heager : Returns (fun fuel => writeNow fuel shortWrite () twoBytes)
      ⟨⟨32, 1⟩, 0, [⟨twoBytes, ⟨⟨32, 1⟩, 1⟩⟩], ()⟩ := by
    refine ⟨1, fun more hmore => ?_⟩
    obtain ⟨k, rfl⟩ : ∃ k, more = k + 1 := ⟨more - 1, by omega⟩
    rfl
  have hplain : Returns (fun fuel => writeNowWorkaround fuel shortWrite () twoBytes)
      ⟨⟨32, 1⟩, 1, [⟨twoBytes, ⟨⟨32, 1⟩, 1⟩⟩], ()⟩ := by
    refine ⟨1, fun more hmore => ?_⟩
    obtain ⟨k, rfl⟩ : ∃ k, more = k + 1 := ⟨more - 1, by omega⟩
    rfl
  rintro ⟨eager, plain, heager', hplain', -, hcount, -⟩
  rw [← heager.unique heager', ← hplain.unique hplain'] at hcount
  simp at hcount

/-- A stream that moves one byte at a time, each in `await_ready`. -/
def readyOneByte : EagerStream Unit := ⟨oneByte, fun _ _ => true⟩

theorem not_readyError_readyOneByte {st : Unit} {cb : ConsumingBuffers} {left : Nat} :
    ¬ ReadyError readyOneByte st cb left := by
  intro h
  induction h with
  | here _ _ herror _ => simp [readyOneByte, oneByte, ErrorCode.isError] at herror
  | next _ _ _ _ ih => exact ih

theorem write_now_agrees_readyOneByte :
    readyOneByte.toStream.Conforms ∧ Agree readyOneByte () twoBytes :=
  ⟨oneByte_conforms,
    (write_now_agrees_iff readyOneByte oneByte_conforms () twoBytes).mpr
      not_readyError_readyOneByte⟩

end Capy.WriteNow
