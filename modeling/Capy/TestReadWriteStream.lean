import Capy.TestStream

namespace Capy.TestStream

open Buffers
open Join (ErrorCode Results)
open Transfer (Call Reports)

section Reports

variable {buffers : List Buffer}

theorem reports_of_empty (h : bufferSize buffers = 0) : Reports buffers ⟨{}, 0⟩ where
  success hsize := absurd h (Nat.ne_of_gt hsize)
  error hsize := absurd h (Nat.ne_of_gt hsize)
  empty _ := rfl

theorem reports_of_error {ec : ErrorCode} (h : ec.isError = true) : Reports buffers ⟨ec, 0⟩ where
  success _ hok := absurd (h.symm.trans hok) (by simp)
  error hsize _ := hsize
  empty _ := rfl

theorem reports_of_bytes {n : Nat} (hn : n ≠ 0) (hle : n ≤ bufferSize buffers) :
    Reports buffers ⟨{}, n⟩ where
  success _ _ := ⟨Nat.one_le_iff_ne_zero.mpr hn, hle⟩
  error _ herr := absurd herr Bool.false_ne_true
  empty h := absurd (Nat.le_zero.mp (bufferSize_of_empty h ▸ hle)) hn

theorem totalSize_ne_zero (h : bufferEmpty buffers = false) : totalSize buffers ≠ 0 := by
  rw [Ne, ← bufferEmpty_iff, h]
  exact Bool.false_ne_true

end Reports

/-- The operations that a sequence of calls completes. -/
def completions {σ κ : Type*} (call : σ → κ → σ × Option Call) : σ → List κ → List Call
  | _, [] => []
  | s, c :: cs => (call s c).2.toList ++ completions call (call s c).1 cs

theorem completions_forall {σ κ : Type*} {call : σ → κ → σ × Option Call} {P : σ → Prop}
    {A : κ → Prop} {Q : Call → Prop}
    (hcall : ∀ s c, P s → A c → P (call s c).1 ∧ ∀ done, (call s c).2 = some done → Q done)
    (s : σ) (hs : P s) (cs : List κ) (hcs : ∀ c ∈ cs, A c) :
    ∀ done ∈ completions call s cs, Q done := by
  induction cs generalizing s with
  | nil => simp [completions]
  | cons c cs ih =>
      obtain ⟨hnext, hdone⟩ := hcall s c hs (hcs c List.mem_cons_self)
      intro done hmem
      rcases List.mem_append.mp hmem with hmem | hmem
      · exact hdone done (Option.mem_toList.mp hmem)
      · exact ih _ hnext (fun c' hc' => hcs c' (List.mem_cons_of_mem _ hc')) done hmem

/-- How both operations start: an empty sequence is a no-op, and the stop token and
the fuse are looked at before any byte moves. -/
def beforeTransfer {σ : Type} (s : σ) (buffers : List Buffer) (stop : Bool) (reply : Fuse.Reply)
    (transfer : σ × Results Nat) : σ × Option Call :=
  if bufferEmpty buffers then (s, some ⟨buffers, ⟨{}, 0⟩⟩)
  else if stop then (s, some ⟨buffers, ⟨canceled, 0⟩⟩)
  else
    match reply with
    | .code ec =>
        if ec.isError then (s, some ⟨buffers, ⟨ec, 0⟩⟩)
        else (transfer.1, some ⟨buffers, transfer.2⟩)
    | .thrown _ => (s, none)
    | .none => (transfer.1, some ⟨buffers, transfer.2⟩)

theorem beforeTransfer_reports {σ : Type} {s : σ} {buffers : List Buffer} {stop : Bool}
    {reply : Fuse.Reply} {transfer : σ × Results Nat}
    (h : bufferEmpty buffers = false → Reports buffers transfer.2) {done : Call}
    (hdone : (beforeTransfer s buffers stop reply transfer).2 = some done) :
    Reports done.bufs done.results := by
  unfold beforeTransfer at hdone
  split_ifs at hdone with hempty hstop
  · rw [← Option.some.inj hdone]
    exact reports_of_empty (bufferSize_of_empty hempty)
  · rw [← Option.some.inj hdone]
    exact reports_of_error rfl
  · have htransfer := h (Bool.eq_false_of_not_eq_true hempty)
    cases reply with
    | none =>
        rw [← Option.some.inj hdone]
        exact htransfer
    | thrown ec => simp at hdone
    | code ec =>
        dsimp only at hdone
        split_ifs at hdone with hec
        · rw [← Option.some.inj hdone]
          exact reports_of_error hec
        · rw [← Option.some.inj hdone]
          exact htransfer

theorem beforeTransfer_state {σ : Type} (s : σ) (buffers : List Buffer) (stop : Bool)
    (reply : Fuse.Reply) (transfer : σ × Results Nat) :
    (beforeTransfer s buffers stop reply transfer).1 = s ∨
      (beforeTransfer s buffers stop reply transfer).1 = transfer.1 := by
  unfold beforeTransfer
  split_ifs
  · exact .inl rfl
  · exact .inl rfl
  · cases reply with
    | none => exact .inr rfl
    | thrown ec => exact .inl rfl
    | code ec =>
        dsimp only
        split_ifs
        · exact .inl rfl
        · exact .inr rfl

/-- `read_stream`. -/
structure ReadStream where
  data : List UInt8 := []
  pos : Nat := 0
  maxReadSize : Nat := sizeMax

inductive ReadCall where
  | provide (sv : List UInt8)
  | clear
  | readSome (buffers : List Buffer) (stop : Bool) (reply : Fuse.Reply)

namespace ReadStream

/-- The end of `await_resume` of `read_some`. -/
def copyOut (s : ReadStream) (buffers : List Buffer) : ReadStream × Results Nat :=
  if s.pos ≥ s.data.length then (s, ⟨eof, 0⟩)
  else
    let avail := s.data.length - s.pos
    let avail := if avail > s.maxReadSize then s.maxReadSize else avail
    let n := min (min (totalSize buffers) avail) sizeMax
    ({ s with pos := s.pos + n }, ⟨{}, n⟩)

def call (s : ReadStream) : ReadCall → ReadStream × Option Call
  | .provide sv => ({ s with data := s.data ++ sv }, none)
  | .clear => ({ s with data := [], pos := 0 }, none)
  | .readSome buffers stop reply => beforeTransfer s buffers stop reply (s.copyOut buffers)

theorem copyOut_reports (s : ReadStream) {buffers : List Buffer} (hlimit : s.maxReadSize ≠ 0)
    (hsize : totalSize buffers < sizeValues) (hbuffers : bufferEmpty buffers = false) :
    Reports buffers (s.copyOut buffers).2 := by
  have htotal := totalSize_ne_zero hbuffers
  have hmax : sizeMax ≠ 0 := by decide
  unfold copyOut
  split_ifs with hpos
  · exact reports_of_error rfl
  · refine reports_of_bytes ?_ ?_
    · split_ifs <;> omega
    · rw [bufferSize_eq, Nat.mod_eq_of_lt hsize]
      omega

@[simp]
theorem copyOut_maxReadSize (s : ReadStream) (buffers : List Buffer) :
    (s.copyOut buffers).1.maxReadSize = s.maxReadSize := by
  unfold copyOut
  split_ifs <;> rfl

theorem call_maxReadSize (s : ReadStream) (c : ReadCall) :
    (s.call c).1.maxReadSize = s.maxReadSize := by
  cases c with
  | provide sv => rfl
  | clear => rfl
  | readSome buffers stop reply =>
      rcases beforeTransfer_state s buffers stop reply (s.copyOut buffers) with h | h
      · rw [call, h]
      · rw [call, h, copyOut_maxReadSize]

end ReadStream

/-- The size of the buffer sequence of a call is a `std::size_t`. -/
def ReadCall.Fits : ReadCall → Prop
  | .readSome buffers _ _ => totalSize buffers < sizeValues
  | _ => True

/-- A read stream meets the requirements after every sequence of calls just when its
limit admits a byte. -/
theorem ReadStream.reports_iff (limit : Nat) :
    (∀ calls : List ReadCall, (∀ c ∈ calls, c.Fits) →
      ∀ done ∈ completions ReadStream.call { maxReadSize := limit } calls,
        Reports done.bufs done.results) ↔ limit ≠ 0 := by
  constructor
  · rintro h rfl
    have hread := h [.provide [0], .readSome [⟨0, 1, by decide⟩] false .none]
      (by simp [ReadCall.Fits, totalSize, sizeValues]) ⟨[⟨0, 1, by decide⟩], ⟨{}, 0⟩⟩ (.head _)
    exact absurd (hread.success (by decide) rfl).1 (by decide)
  · intro hlimit calls
    refine completions_forall (P := fun s : ReadStream => s.maxReadSize ≠ 0) ?_ _ hlimit calls
    intro s c hs hc
    refine ⟨by rwa [call_maxReadSize], ?_⟩
    intro done hdone
    cases c with
    | provide sv => simp [call] at hdone
    | clear => simp [call] at hdone
    | readSome buffers stop reply => exact beforeTransfer_reports (s.copyOut_reports hs hc) hdone

/-- `write_stream`. -/
structure WriteStream where
  data : List UInt8 := []
  expected : List UInt8 := []
  maxWriteSize : Nat := sizeMax

inductive WriteCall where
  | expect (sv : List UInt8)
  | writeSome (buffers : List Buffer) (mem : Nat → UInt8) (stop : Bool) (reply : Fuse.Reply)

namespace WriteStream

def consumeMatch (s : WriteStream) : WriteStream × ErrorCode :=
  if s.data.isEmpty || s.expected.isEmpty then (s, {})
  else
    let n := min s.data.length s.expected.length
    if s.data.take n ≠ s.expected.take n then (s, testFailure)
    else ({ s with data := s.data.drop n, expected := s.expected.drop n }, {})

/-- The end of `await_resume` of `write_some`. -/
def copyIn (s : WriteStream) (buffers : List Buffer) (mem : Nat → UInt8) :
    WriteStream × Results Nat :=
  let n := min (bufferSize buffers) s.maxWriteSize
  let (s', ec) := consumeMatch { s with data := s.data ++ ((flatten buffers).map mem).take n }
  if ec.isError then ({ s' with data := s'.data.take s.data.length }, ⟨ec, 0⟩) else (s', ⟨{}, n⟩)

def call (s : WriteStream) : WriteCall → WriteStream × Option Call
  | .expect sv => ((consumeMatch { s with expected := sv }).1, none)
  | .writeSome buffers mem stop reply =>
      beforeTransfer s buffers stop reply (s.copyIn buffers mem)

@[simp]
theorem consumeMatch_maxWriteSize (s : WriteStream) :
    s.consumeMatch.1.maxWriteSize = s.maxWriteSize := by
  unfold consumeMatch
  split_ifs
  · rfl
  · dsimp only
    split_ifs <;> rfl

@[simp]
theorem copyIn_maxWriteSize (s : WriteStream) (buffers : List Buffer) (mem : Nat → UInt8) :
    (s.copyIn buffers mem).1.maxWriteSize = s.maxWriteSize := by
  unfold copyIn
  dsimp only
  split_ifs <;> exact consumeMatch_maxWriteSize _

theorem copyIn_reports (s : WriteStream) {buffers : List Buffer} {mem : Nat → UInt8}
    (hlimit : s.maxWriteSize ≠ 0) : Reports buffers (s.copyIn buffers mem).2 := by
  unfold copyIn
  dsimp only
  split_ifs with hec
  · exact reports_of_error hec
  · rcases Nat.eq_zero_or_pos (bufferSize buffers) with hzero | hpos
    · rw [hzero, Nat.zero_min]
      exact reports_of_empty hzero
    · exact reports_of_bytes (by omega) (Nat.min_le_left _ _)

theorem call_maxWriteSize (s : WriteStream) (c : WriteCall) :
    (s.call c).1.maxWriteSize = s.maxWriteSize := by
  cases c with
  | expect sv => exact consumeMatch_maxWriteSize _
  | writeSome buffers mem stop reply =>
      rcases beforeTransfer_state s buffers stop reply (s.copyIn buffers mem) with h | h
      · rw [call, h]
      · rw [call, h, copyIn_maxWriteSize]

end WriteStream

theorem WriteStream.reports_iff (limit : Nat) :
    (∀ calls : List WriteCall,
      ∀ done ∈ completions WriteStream.call { maxWriteSize := limit } calls,
        Reports done.bufs done.results) ↔ limit ≠ 0 := by
  constructor
  · rintro h rfl
    have hwrite := h [.writeSome [⟨0, 1, by decide⟩] (fun _ => 0) false .none]
      ⟨[⟨0, 1, by decide⟩], ⟨{}, 0⟩⟩ (.head _)
    exact absurd (hwrite.success (by decide) rfl).1 (by decide)
  · intro hlimit calls
    refine completions_forall (P := fun s : WriteStream => s.maxWriteSize ≠ 0)
      (A := fun _ => True) ?_ _ hlimit calls fun _ _ => trivial
    intro s c hs _
    refine ⟨by rwa [call_maxWriteSize], ?_⟩
    intro done hdone
    cases c with
    | expect sv => simp [call] at hdone
    | writeSome buffers mem stop reply =>
        exact beforeTransfer_reports (fun _ => s.copyIn_reports hs) hdone

end Capy.TestStream
