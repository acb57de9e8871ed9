import Mathlib.Data.Nat.ModEq
import Capy.Buffers
import Capy.Join

namespace Capy.Transfer

open Capy.Buffers
open Capy.Join (ErrorCode Results)

/-- A stream by its states: `transferSome` is `read_some` of a read stream or
`write_some` of a write stream. It moves the first bytes of the buffers, as many
as it reports. -/
structure Stream (σ : Type) where
  transferSome : σ → List Buffer → Results Nat × σ

variable {σ : Type}

/-- What an operation on a stream reports about the buffers it was given. -/
structure Reports (bufs : List Buffer) (r : Results Nat) : Prop where
  success : 0 < bufferSize bufs → r.ec.isError = false →
    1 ≤ r.payload ∧ r.payload ≤ bufferSize bufs
  error : 0 < bufferSize bufs → r.ec.isError = true → r.payload < bufferSize bufs
  empty : bufferEmpty bufs = true → r.payload = 0

/-- The semantic requirements of `ReadStream` and `WriteStream`. -/
def Stream.Conforms (s : Stream σ) : Prop :=
  ∀ st bufs, Reports bufs (s.transferSome st bufs).1

/-- The requirements for sequences of at most `size` bytes. -/
def Stream.ConformsUpTo (s : Stream σ) (size : Nat) : Prop :=
  ∀ st bufs, totalSize bufs ≤ size → Reports bufs (s.transferSome st bufs).1

theorem Stream.Conforms.upTo {s : Stream σ} (h : s.Conforms) (size : Nat) :
    s.ConformsUpTo size :=
  fun st bufs _ => h st bufs

/-- An operation that the stream has completed. -/
structure Call where
  bufs : List Buffer
  results : Results Nat

/-- The bytes that the operation moved. -/
def Call.moved (c : Call) : List Nat := (flatten c.bufs).take c.results.payload

/-- The sum of the counts that the operations reported. -/
def reported (calls : List Call) : Nat := (calls.map fun c => c.results.payload).sum

/-- What a composed transfer returns, the operations it awaited and the state of
the stream after them. -/
structure Outcome (σ : Type) where
  ec : ErrorCode
  count : Nat
  calls : List Call
  state : σ

def Outcome.after (c : Call) (out : Outcome σ) : Outcome σ :=
  { out with calls := c :: out.calls }

/-- The loop of all four coroutines: `total` bytes are transferred and it stops
at `target`. -/
def transferLoop (s : Stream σ) (target : Nat) :
    Nat → σ → ConsumingBuffers → Nat → Option (Outcome σ)
  | 0, _, _, _ => none
  | fuel + 1, st, consuming, total =>
      if total < target then
        let r := (s.transferSome st consuming.data).1
        let st' := (s.transferSome st consuming.data).2
        let total' := (total + r.payload) % sizeValues
        if r.ec.isError ∧ total' < target then
          some ⟨r.ec, total', [⟨consuming.data, r⟩], st'⟩
        else
          (transferLoop s target fuel st' (consuming.consume r.payload) total').map
            (Outcome.after ⟨consuming.data, r⟩)
      else some ⟨{}, total, [], st⟩

/-- `make_error_code(std::errc::invalid_argument)`. -/
def invalidArgument : ErrorCode := ⟨22, 1⟩

def transfer (fuel : Nat) (s : Stream σ) (st : σ) (bufs : List Buffer) : Option (Outcome σ) :=
  transferLoop s (bufferSize bufs) fuel st (consumingBuffers bufs) 0

def transferAtLeast (fuel : Nat) (s : Stream σ) (st : σ) (bufs : List Buffer) (n : Nat) :
    Option (Outcome σ) :=
  if bufferSize bufs < n then some ⟨invalidArgument, 0, [], st⟩
  else transferLoop s n fuel st (consumingBuffers bufs) 0

def read (fuel : Nat) (stream : Stream σ) (st : σ) (buffers : List Buffer) :
    Option (Outcome σ) :=
  transfer fuel stream st buffers

def write (fuel : Nat) (stream : Stream σ) (st : σ) (buffers : List Buffer) :
    Option (Outcome σ) :=
  transfer fuel stream st buffers

def readAtLeast (fuel : Nat) (stream : Stream σ) (st : σ) (buffers : List Buffer) (n : Nat) :
    Option (Outcome σ) :=
  transferAtLeast fuel stream st buffers n

def writeAtLeast (fuel : Nat) (stream : Stream σ) (st : σ) (buffers : List Buffer) (n : Nat) :
    Option (Outcome σ) :=
  transferAtLeast fuel stream st buffers n

/-- A coroutine run with every amount of fuel from some point on returns `out`. -/
def Returns (run : Nat → Option (Outcome σ)) (out : Outcome σ) : Prop :=
  ∃ fuel, ∀ more, fuel ≤ more → run more = some out

theorem Returns.unique {run : Nat → Option (Outcome σ)} {out out' : Outcome σ}
    (h : Returns run out) (h' : Returns run out') : out = out' := by
  obtain ⟨fuel, hrun⟩ := h
  obtain ⟨fuel', hrun'⟩ := h'
  have hsame := (hrun (max fuel fuel') (by omega)).symm.trans (hrun' _ (by omega))
  exact Option.some.inj hsame

/-- What a transfer of at least `target` of the bytes in `bytes` does from
`total` on: `limit` bounds the count, and the stream is `s`. -/
structure Moves (s : Stream σ) (bytes : List Nat) (limit target total : Nat)
    (out : Outcome σ) : Prop where
  count : out.count = total + reported out.calls
  le : out.count ≤ limit
  ec : out.ec.isError = false ↔ target ≤ out.count
  first : out.count < target →
    (out.calls.map fun c => c.results.ec).find? ErrorCode.isError = some out.ec
  early : ∀ k < out.calls.length, total + reported (out.calls.take k) < target
  moved : out.calls.flatMap Call.moved = (bytes.drop total).take (out.count - total)
  asked : ∀ c ∈ out.calls, ∃ st, c.results = (s.transferSome st c.bufs).1

/-- The cursor stands behind the first `total` bytes, which `buffer_size` has
not wrapped over. -/
structure Position (bytes : List Nat) (c : ConsumingBuffers) (total : Nat) : Prop where
  valid : c.Valid
  rest : flatten c.data = bytes.drop total
  le : total ≤ bytes.length % sizeValues

theorem position_consumingBuffers (bufs : List Buffer) :
    Position (flatten bufs) (consumingBuffers bufs) 0 :=
  ⟨valid_consumingBuffers bufs, by simp, Nat.zero_le _⟩

theorem Position.totalSize_data_le {bytes : List Nat} {c : ConsumingBuffers} {total : Nat}
    (h : Position bytes c total) : totalSize c.data ≤ bytes.length := by
  rw [← length_flatten, h.rest, List.length_drop]
  exact Nat.sub_le _ _

theorem Position.advance {bytes : List Nat} {c : ConsumingBuffers} {total : Nat}
    (h : Position bytes c total) {r : Results Nat} (hr : Reports c.data r)
    (hmore : total < bytes.length % sizeValues) :
    (total + r.payload) % sizeValues = total + r.payload ∧
      Position bytes (c.consume r.payload) (total + r.payload) ∧
      (r.ec.isError = false → 1 ≤ r.payload) := by
  have hmod : bytes.length % sizeValues < sizeValues := Nat.mod_lt _ (by decide)
  have hsize : bufferSize c.data = bytes.length % sizeValues - total := by
    rw [bufferSize_eq, ← length_flatten, h.rest, List.length_drop, Nat.mod_sub_of_le h.le]
  have hle : r.payload ≤ bytes.length % sizeValues - total := by
    cases hec : r.ec.isError
    · have := hr.success (by omega) hec
      omega
    · have := hr.error (by omega) hec
      omega
  have hpay : r.payload < sizeValues := by omega
  refine ⟨Nat.mod_eq_of_lt (by omega), ⟨h.valid.consume hpay, ?_, by omega⟩, ?_⟩
  · rw [flatten_data_consume h.valid hpay, h.rest, List.drop_drop]
  · exact fun hec => (hr.success (by omega) hec).1

section Loop

variable {s : Stream σ} {bytes : List Nat} {limit target total : Nat}

theorem Moves.done {st : σ} (hle : total ≤ limit) (htarget : target ≤ total) :
    Moves s bytes limit target total ⟨{}, total, [], st⟩ where
  count := rfl
  le := hle
  ec := iff_of_true rfl htarget
  first h := absurd h (Nat.not_lt.mpr htarget)
  early k hk := absurd hk (Nat.not_lt_zero k)
  moved := by simp
  asked := by simp

theorem Moves.fail {st : σ} {bufs : List Buffer} {total' : Nat}
    (hbytes : flatten bufs = bytes.drop total)
    (htotal : total + (s.transferSome st bufs).1.payload = total')
    (herror : (s.transferSome st bufs).1.ec.isError = true) (hlt : total < target)
    (hle : total' ≤ limit) (hlt' : total' < target) :
    Moves s bytes limit target total
      ⟨(s.transferSome st bufs).1.ec, total', [⟨bufs, (s.transferSome st bufs).1⟩],
        (s.transferSome st bufs).2⟩ where
  count := by simp [reported, htotal]
  le := hle
  ec := iff_of_false (by simp [herror]) (Nat.not_le.mpr hlt')
  first _ := by simp [herror]
  early k hk := by
    obtain rfl : k = 0 := by simpa using hk
    simpa [reported] using hlt
  moved := by
    subst htotal
    simp [Call.moved, hbytes]
  asked c hc := by
    obtain rfl := List.mem_singleton.mp hc
    exact ⟨st, rfl⟩

theorem Moves.after {st : σ} {bufs : List Buffer} {total' : Nat} {out : Outcome σ}
    (hbytes : flatten bufs = bytes.drop total)
    (htotal : total + (s.transferSome st bufs).1.payload = total')
    (hnext : (s.transferSome st bufs).1.ec.isError = true → target ≤ total')
    (hlt : total < target) (h : Moves s bytes limit target total' out) :
    Moves s bytes limit target total
      (out.after ⟨bufs, (s.transferSome st bufs).1⟩) := by
  obtain ⟨hcount, hle, hec, hfirst, hearly, hmoved, hasked⟩ := h
  subst htotal
  constructor
  · simp only [Outcome.after, reported, List.map_cons, List.sum_cons] at hcount ⊢
    omega
  · exact hle
  · exact hec
  · intro hshort
    have hgood : (s.transferSome st bufs).1.ec.isError = false := by
      by_contra herror
      have := hnext (by simpa using herror)
      simp only [Outcome.after] at hshort
      omega
    simp only [Outcome.after, List.map_cons, List.find?_cons, hgood]
    exact hfirst hshort
  · intro k hk
    cases k with
    | zero => simpa [reported] using hlt
    | succ k =>
        have hk' : k < out.calls.length := by simpa [Outcome.after] using hk
        have := hearly k hk'
        simp only [Outcome.after, reported, List.take_succ_cons, List.map_cons,
          List.sum_cons] at this ⊢
        omega
  · have hsplit : out.count - total = (s.transferSome st bufs).1.payload +
        (out.count - (total + (s.transferSome st bufs).1.payload)) := by omega
    simp only [Outcome.after, List.flatMap_cons, Call.moved, hmoved, hbytes]
    rw [hsplit, List.take_add, List.drop_drop]
  · intro c hc
    rcases List.mem_cons.mp hc with rfl | hc
    · exact ⟨st, rfl⟩
    · exact hasked c hc

theorem transferLoop_moves (hs : s.ConformsUpTo bytes.length)
    (htarget : target ≤ bytes.length % sizeValues) {fuel : Nat} {st : σ} {c : ConsumingBuffers}
    (hpos : Position bytes c total) (hfuel : target - total < fuel) :
    ∃ out, transferLoop s target fuel st c total = some out ∧
      Moves s bytes (bytes.length % sizeValues) target total out := by
  induction fuel generalizing st c total with
  | zero => omega
  | succ fuel ih =>
      simp only [transferLoop]
      by_cases hmore : total < target
      · rw [if_pos hmore]
        obtain ⟨hadd, hpos', hone⟩ := hpos.advance (hs st c.data hpos.totalSize_data_le) (by omega)
        rw [hadd]
        split_ifs with hstop
        · exact ⟨_, rfl, .fail hpos.rest rfl hstop.1 hmore hpos'.le hstop.2⟩
        · have hnext : (s.transferSome st c.data).1.ec.isError = true →
              target ≤ total + (s.transferSome st c.data).1.payload :=
            fun hec => Nat.not_lt.mp fun h => hstop ⟨hec, h⟩
          have hless : target - (total + (s.transferSome st c.data).1.payload) < fuel := by
            cases hec : (s.transferSome st c.data).1.ec.isError
            · have := hone hec
              omega
            · have := hnext hec
              omega
          obtain ⟨out, hout, hmoves⟩ := ih hpos' hless
          rw [hout]
          exact ⟨_, rfl, hmoves.after hpos.rest rfl hnext hmore⟩
      · rw [if_neg hmore]
        exact ⟨_, rfl, .done hpos.le (Nat.not_lt.mp hmore)⟩

theorem transferLoop_mono {fuel more : Nat} {st : σ} {c : ConsumingBuffers}
    {out : Outcome σ} (hle : fuel ≤ more)
    (h : transferLoop s target fuel st c total = some out) :
    transferLoop s target more st c total = some out := by
  induction fuel generalizing more st c total out with
  | zero => simp [transferLoop] at h
  | succ fuel ih =>
      obtain ⟨more, rfl⟩ : ∃ k, more = k + 1 := ⟨more - 1, by omega⟩
      simp only [transferLoop] at h ⊢
      split_ifs at h ⊢ with hmore hstop
      · exact h
      · obtain ⟨rest, hrest, rfl⟩ := Option.map_eq_some_iff.mp h
        rw [ih (by omega) hrest]
        rfl
      · exact h

end Loop

/-- What a transfer of at least `n` bytes of the sequence is to do. -/
structure Transferred (bufs : List Buffer) (n : Nat) (out : Outcome σ) : Prop where
  count : out.count = reported out.calls
  le : out.count ≤ totalSize bufs
  ec : out.ec.isError = false ↔ n ≤ out.count
  first : out.count < n →
    (out.calls.map fun c => c.results.ec).find? ErrorCode.isError = some out.ec
  early : ∀ k < out.calls.length, reported (out.calls.take k) < n
  moved : out.calls.flatMap Call.moved = (flatten bufs).take out.count

/-- `run n` refuses what the sequence cannot hold, without touching the stream,
and otherwise transfers at least `n` bytes. -/
structure TransfersAtLeast (bufs : List Buffer) (run : Nat → Nat → Option (Outcome σ)) :
    Prop where
  refuses : ∀ n < sizeValues, totalSize bufs < n ↔ ∃ out, Returns (run n) out ∧
    out.ec = invalidArgument ∧ out.count = 0 ∧ out.calls = []
  transfers : ∀ n < sizeValues, n ≤ totalSize bufs →
    ∃ out, Returns (run n) out ∧ Transferred bufs n out

/-- `run` transfers the whole sequence, as `atLeast` does when asked for its
total size. -/
structure TransfersAll (bufs : List Buffer) (run : Nat → Option (Outcome σ))
    (atLeast : Nat → Nat → Option (Outcome σ)) : Prop where
  transfers : ∃ out, Returns run out ∧ Transferred bufs (totalSize bufs) out
  same : totalSize bufs < sizeValues → run = atLeast (totalSize bufs)

/-- The four coroutines do on the sequence what they are for, over every
conforming stream. -/
def TransfersOver (bufs : List Buffer) : Prop :=
  ∀ (σ : Type) (s : Stream σ) (st : σ), s.Conforms →
    TransfersAtLeast bufs (fun n fuel => readAtLeast fuel s st bufs n) ∧
    TransfersAtLeast bufs (fun n fuel => writeAtLeast fuel s st bufs n) ∧
    TransfersAll bufs (fun fuel => read fuel s st bufs)
      (fun n fuel => readAtLeast fuel s st bufs n) ∧
    TransfersAll bufs (fun fuel => write fuel s st bufs)
      (fun n fuel => writeAtLeast fuel s st bufs n)

theorem Moves.transferred {s : Stream σ} {bufs : List Buffer} {limit n : Nat}
    {out : Outcome σ} (h : Moves s (flatten bufs) limit n 0 out)
    (hlimit : limit ≤ totalSize bufs) : Transferred bufs n out where
  count := by simpa using h.count
  le := Nat.le_trans h.le hlimit
  ec := h.ec
  first := h.first
  early := by simpa using h.early
  moved := by simpa using h.moved

/-- The loop over a fresh cursor, when what it is asked for does not exceed
`buffer_size`. -/
theorem transferLoop_returns {s : Stream σ} {bufs : List Buffer}
    (hs : s.ConformsUpTo (totalSize bufs)) (st : σ) {n : Nat} (hn : n ≤ bufferSize bufs) :
    ∃ out, Returns (fun fuel => transferLoop s n fuel st (consumingBuffers bufs) 0) out ∧
      Moves s (flatten bufs) (bufferSize bufs) n 0 out := by
  have hlimit : (flatten bufs).length % sizeValues = bufferSize bufs := by
    rw [bufferSize_eq, length_flatten]
  rw [← length_flatten] at hs
  obtain ⟨out, hout, hmoves⟩ : ∃ out, transferLoop s n (n + 1) st (consumingBuffers bufs) 0 =
      some out ∧ Moves s (flatten bufs) ((flatten bufs).length % sizeValues) n 0 out :=
    transferLoop_moves hs (hlimit ▸ hn) (position_consumingBuffers bufs) (by omega)
  exact ⟨out, ⟨n + 1, fun more hmore => transferLoop_mono hmore hout⟩, hlimit ▸ hmoves⟩

theorem transferAtLeast_of_le {s : Stream σ} {st : σ} {bufs : List Buffer} {n : Nat}
    (hn : n ≤ bufferSize bufs) (fuel : Nat) :
    transferAtLeast fuel s st bufs n = transferLoop s n fuel st (consumingBuffers bufs) 0 :=
  if_neg (Nat.not_lt.mpr hn)

theorem transfersAtLeast_of_lt {bufs : List Buffer} (hsize : totalSize bufs < sizeValues)
    {s : Stream σ} (hs : s.ConformsUpTo (totalSize bufs)) (st : σ) :
    TransfersAtLeast bufs (fun n fuel => transferAtLeast fuel s st bufs n) := by
  have hexact : bufferSize bufs = totalSize bufs := by
    rw [bufferSize_eq, Nat.mod_eq_of_lt hsize]
  have htransfers : ∀ n ≤ totalSize bufs,
      ∃ out, Returns (fun fuel => transferAtLeast fuel s st bufs n) out ∧
        Transferred bufs n out := by
    intro n hn
    obtain ⟨out, hreturns, hmoves⟩ := transferLoop_returns hs st (hexact ▸ hn)
    refine ⟨out, ?_, hmoves.transferred (Nat.le_of_eq hexact)⟩
    simpa only [transferAtLeast_of_le (hexact ▸ hn)] using hreturns
  refine ⟨fun n _ => ⟨fun hn => ?_, ?_⟩, fun n _ => htransfers n⟩
  · refine ⟨⟨invalidArgument, 0, [], st⟩, ⟨0, fun fuel _ => ?_⟩, rfl, rfl, rfl⟩
    exact if_pos (hexact ▸ hn)
  · rintro ⟨out, hreturns, hec, -, hcalls⟩
    by_contra hn
    obtain ⟨out', hreturns', htransferred⟩ := htransfers n (Nat.not_lt.mp hn)
    obtain rfl := hreturns.unique hreturns'
    -- asked for nothing it succeeds, and asked for more it calls the stream
    have herror : out.ec.isError = true := by
      rw [hec]
      rfl
    have hshort : out.count < n := by
      by_contra hge
      simp [htransferred.ec.mpr (Nat.not_lt.mp hge)] at herror
    have hfirst := htransferred.first hshort
    simp [hcalls] at hfirst

theorem transfersAll_of_lt {bufs : List Buffer} (hsize : totalSize bufs < sizeValues)
    {s : Stream σ} (hs : s.ConformsUpTo (totalSize bufs)) (st : σ) :
    TransfersAll bufs (fun fuel => transfer fuel s st bufs)
      (fun n fuel => transferAtLeast fuel s st bufs n) := by
  have hexact : bufferSize bufs = totalSize bufs := by
    rw [bufferSize_eq, Nat.mod_eq_of_lt hsize]
  obtain ⟨out, hreturns, hmoves⟩ := transferLoop_returns hs st (Nat.le_refl (bufferSize bufs))
  refine ⟨⟨out, hreturns, ?_⟩, fun _ => ?_⟩
  · have htransferred := hmoves.transferred (Nat.le_of_eq hexact)
    rwa [hexact] at htransferred
  · funext fuel
    rw [transferAtLeast_of_le (Nat.le_of_eq hexact.symm), ← hexact]
    rfl

/-- A stream that moves one byte at a time and never fails. -/
def oneByte : Stream Unit where
  transferSome _ bufs := (⟨{}, if bufferEmpty bufs then 0 else 1⟩, ())

theorem oneByte_conforms : oneByte.Conforms := by
  intro st bufs
  have hone : 0 < bufferSize bufs → bufferEmpty bufs = false := by
    intro hpos
    by_contra hempty
    rw [bufferSize_of_empty (by simpa using hempty)] at hpos
    exact Nat.lt_irrefl 0 hpos
  refine ⟨fun hpos _ => ?_, fun _ herror => ?_, fun hempty => ?_⟩
  · simp only [oneByte, hone hpos, Bool.false_eq_true, if_false]
    omega
  · simp [oneByte, ErrorCode.isError] at herror
  · simp [oneByte, hempty]

/-- When `buffer_size` wraps, a transfer over a stream that never fails reports the
success of what it cut short. -/
theorem not_transferred_of_le {s : Stream σ} (hs : s.Conforms)
    (hgood : ∀ st bufs, (s.transferSome st bufs).1.ec.isError = false) {bufs : List Buffer}
    (hsize : sizeValues ≤ totalSize bufs) (st : σ) :
    ¬ ∃ out, Returns (fun fuel => transfer fuel s st bufs) out ∧
      Transferred bufs (totalSize bufs) out := by
  rintro ⟨out, hreturns, htransferred⟩
  obtain ⟨out', hreturns', hmoves⟩ :=
    transferLoop_returns (hs.upTo _) st (Nat.le_refl (bufferSize bufs))
  obtain rfl := hreturns.unique hreturns'
  have hshort : out.count < totalSize bufs := by
    have := hmoves.le
    have := bufferSize_lt bufs
    omega
  have hfirst := htransferred.first hshort
  obtain ⟨c, hc, hec⟩ := List.mem_map.mp (List.mem_of_find?_eq_some hfirst)
  obtain ⟨st', hasked⟩ := hmoves.asked c hc
  have herror : c.results.ec.isError = true := by
    rw [hec]
    exact List.find?_some hfirst
  rw [hasked, hgood] at herror
  simp at herror

theorem not_transfersOver_of_le {bufs : List Buffer} (hsize : sizeValues ≤ totalSize bufs) :
    ¬ TransfersOver bufs := by
  intro h
  obtain ⟨-, -, ⟨htransfers, -⟩, -⟩ := h Unit oneByte () oneByte_conforms
  exact not_transferred_of_le oneByte_conforms (fun _ _ => rfl) hsize () htransfers

/-- The four coroutines do what they are for on a buffer sequence exactly when
the sizes of its buffers add up to a `std::size_t`. -/
theorem composed_transfers_iff (bufs : List Buffer) :
    TransfersOver bufs ↔ totalSize bufs < sizeValues := by
  constructor
  · intro h
    by_contra hsize
    exact not_transfersOver_of_le (Nat.not_lt.mp hsize) h
  · intro hsize σ s st hs
    have hs' := hs.upTo (totalSize bufs)
    exact ⟨transfersAtLeast_of_lt hsize hs' st, transfersAtLeast_of_lt hsize hs' st,
      transfersAll_of_lt hsize hs' st, transfersAll_of_lt hsize hs' st⟩

/-- One region of 4 GiB, seen 2^32 times. -/
def repeatedRegion : List Buffer := List.replicate (2 ^ 32) ⟨0, 2 ^ 32, by decide⟩

theorem totalSize_repeatedRegion : totalSize repeatedRegion = 2 ^ 64 := by
  rw [totalSize, repeatedRegion, List.map_replicate, List.sum_replicate, smul_eq_mul]
  rfl

/-- `write` of 2^64 bytes writes none and reports success. -/
theorem write_repeatedRegion :
    oneByte.Conforms ∧ totalSize repeatedRegion = 2 ^ 64 ∧
      (∀ fuel, write (fuel + 1) oneByte () repeatedRegion = some ⟨{}, 0, [], ()⟩) ∧
      ¬ TransfersOver repeatedRegion := by
  have htotal := totalSize_repeatedRegion
  refine ⟨oneByte_conforms, htotal, fun fuel => ?_, not_transfersOver_of_le ?_⟩
  · have hzero : bufferSize repeatedRegion = 0 := by
      rw [bufferSize_eq, htotal]
      rfl
    rw [write, transfer, hzero]
    rfl
  · rw [htotal]
    exact Nat.le_refl _

end Capy.Transfer
