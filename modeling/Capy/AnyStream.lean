import Capy.Transfer

namespace Capy.AnyStream

open Capy.Buffers
open Capy.Transfer
open Capy.Join (ErrorCode Results)

variable {σ : Type}

/-- `detail::max_iovec_`. -/
def maxIovec : Nat := 16

/-- The loop of the `buffer_array` constructor with `n` buffers stored so far: the
buffers that it goes on to store. -/
def bufferArrayLoop (capacity : Nat) : List Buffer → Nat → List Buffer
  | [], _ => []
  | b :: rest, n =>
      if n < capacity then
        if b.size ≠ 0 then b :: bufferArrayLoop capacity rest (n + 1)
        else bufferArrayLoop capacity rest n
      else []

/-- The span of the `buffer_array` made from a sequence. -/
def bufferArray (bufs : List Buffer) : List Buffer := bufferArrayLoop maxIovec bufs 0

/-- The stream with a record of the operations it completed. -/
def logged (s : Stream σ) : Stream (σ × List Call) where
  transferSome st bufs :=
    ((s.transferSome st.1 bufs).1,
      (s.transferSome st.1 bufs).2, st.2 ++ [⟨bufs, (s.transferSome st.1 bufs).1⟩])

/-- An `any_read_stream` around a stream. -/
def anyReadStream (s : Stream σ) : Stream σ where
  transferSome st buffers := s.transferSome st (bufferArray buffers)

/-- An `any_write_stream` around a stream. -/
def anyWriteStream (s : Stream σ) : Stream σ where
  transferSome st buffers :=
    if (bufferArray buffers).isEmpty then (⟨{}, 0⟩, st)
    else s.transferSome st (bufferArray buffers)

/-- A window of the sequence. -/
structure Window (bufs window : List Buffer) : Prop where
  length_le : window.length ≤ maxIovec
  size_ne : ∀ b ∈ window, b.size ≠ 0
  bytes : flatten window <+: flatten bufs
  some : totalSize bufs ≠ 0 → totalSize window ≠ 0

theorem bufferArrayLoop_length (capacity n : Nat) (bufs : List Buffer) (hn : n ≤ capacity) :
    (bufferArrayLoop capacity bufs n).length + n ≤ capacity := by
  induction bufs generalizing n with
  | nil => simpa [bufferArrayLoop] using hn
  | cons b rest ih =>
      simp only [bufferArrayLoop]
      split_ifs with hroom hsize
      · have := ih (n + 1) hroom
        simp only [List.length_cons]
        omega
      · exact ih n hn
      · simpa using hn

theorem bufferArrayLoop_size_ne (capacity n : Nat) (bufs : List Buffer) :
    ∀ b ∈ bufferArrayLoop capacity bufs n, b.size ≠ 0 := by
  induction bufs generalizing n with
  | nil => simp [bufferArrayLoop]
  | cons b rest ih =>
      intro x hx
      simp only [bufferArrayLoop] at hx
      split_ifs at hx with hroom hsize
      · rcases List.mem_cons.mp hx with rfl | hx
        · exact hsize
        · exact ih (n + 1) x hx
      · exact ih n x hx
      · simp at hx

theorem flatten_bufferArrayLoop (capacity n : Nat) (bufs : List Buffer) :
    flatten (bufferArrayLoop capacity bufs n) <+: flatten bufs := by
  induction bufs generalizing n with
  | nil => simp [bufferArrayLoop]
  | cons b rest ih =>
      simp only [bufferArrayLoop]
      split_ifs with hroom hsize
      · rw [flatten_cons, flatten_cons]
        exact List.prefix_append_right_inj _ |>.mpr (ih (n + 1))
      · have hempty : b.bytes = [] := List.eq_nil_of_length_eq_zero (by simpa using hsize)
        rw [flatten_cons, hempty, List.nil_append]
        exact ih n
      · exact List.nil_prefix

theorem totalSize_bufferArrayLoop_ne {capacity n : Nat} {bufs : List Buffer}
    (hn : n < capacity) (h : totalSize bufs ≠ 0) :
    totalSize (bufferArrayLoop capacity bufs n) ≠ 0 := by
  induction bufs with
  | nil => simp [totalSize] at h
  | cons b rest ih =>
      simp only [bufferArrayLoop, if_pos hn]
      split_ifs with hsize
      · simp only [totalSize, List.map_cons, List.sum_cons] at *
        omega
      · refine ih ?_
        simp only [totalSize, List.map_cons, List.sum_cons] at h ⊢
        omega

theorem window_bufferArray (bufs : List Buffer) : Window bufs (bufferArray bufs) where
  length_le := bufferArrayLoop_length maxIovec 0 bufs (Nat.zero_le _)
  size_ne := bufferArrayLoop_size_ne maxIovec 0 bufs
  bytes := flatten_bufferArrayLoop maxIovec 0 bufs
  some := totalSize_bufferArrayLoop_ne (by decide)

theorem Window.totalSize_le {bufs window : List Buffer} (h : Window bufs window) :
    totalSize window ≤ totalSize bufs := by
  rw [← length_flatten, ← length_flatten]
  exact h.bytes.length_le

theorem Window.isEmpty_iff {bufs window : List Buffer} (h : Window bufs window) :
    window.isEmpty = true ↔ totalSize bufs = 0 := by
  constructor
  · intro hempty
    by_contra hne
    rw [List.isEmpty_iff.mp hempty] at h
    exact h.some hne rfl
  · intro hzero
    rw [List.isEmpty_iff]
    refine List.eq_nil_iff_forall_not_mem.mpr fun b hb => h.size_ne b hb ?_
    have hle := h.totalSize_le
    rw [hzero, Nat.le_zero, ← bufferEmpty_iff, bufferEmpty, List.all_eq_true] at hle
    simpa using hle b hb

theorem Window.take {bufs window : List Buffer} (h : Window bufs window) {n : Nat}
    (hn : n ≤ totalSize window) : (flatten window).take n = (flatten bufs).take n := by
  obtain ⟨rest, hrest⟩ := h.bytes
  rw [← hrest, List.take_append_of_le_length (by simpa using hn)]

/-- What an operation on a stream is to report about the buffers it was given, in
exact arithmetic. -/
structure ReportsExactly (bufs : List Buffer) (r : Results Nat) : Prop where
  success : totalSize bufs ≠ 0 → r.ec.isError = false →
    1 ≤ r.payload ∧ r.payload ≤ totalSize bufs
  error : totalSize bufs ≠ 0 → r.ec.isError = true → r.payload < totalSize bufs
  empty : totalSize bufs = 0 → r.payload = 0

theorem reportsExactly_iff {bufs : List Buffer} (hsize : totalSize bufs < sizeValues)
    {r : Results Nat} : ReportsExactly bufs r ↔ Reports bufs r := by
  have hexact : bufferSize bufs = totalSize bufs := by
    rw [bufferSize_eq, Nat.mod_eq_of_lt hsize]
  constructor
  · rintro ⟨hsuccess, herror, hempty⟩
    refine ⟨fun hpos => ?_, fun hpos => ?_, fun h => hempty ((bufferEmpty_iff bufs).mp h)⟩
    · rw [hexact] at hpos ⊢
      exact hsuccess (Nat.ne_of_gt hpos)
    · rw [hexact] at hpos ⊢
      exact herror (Nat.ne_of_gt hpos)
  · rintro ⟨hsuccess, herror, hempty⟩
    rw [hexact] at hsuccess herror
    exact ⟨fun hne => hsuccess (Nat.pos_of_ne_zero hne),
      fun hne => herror (Nat.pos_of_ne_zero hne), fun h => hempty ((bufferEmpty_iff bufs).mpr h)⟩

theorem ReportsExactly.payload_le {bufs : List Buffer} {r : Results Nat}
    (h : ReportsExactly bufs r) : r.payload ≤ totalSize bufs := by
  by_cases hzero : totalSize bufs = 0
  · rw [h.empty hzero]
    exact Nat.zero_le _
  · cases hec : r.ec.isError
    · exact (h.success hzero hec).2
    · exact Nat.le_of_lt (h.error hzero hec)

theorem Window.reports {bufs window : List Buffer} (h : Window bufs window) {r : Results Nat}
    (hr : ReportsExactly window r) : ReportsExactly bufs r := by
  have hle := h.totalSize_le
  refine ⟨fun hne hec => ?_, fun hne hec => ?_, fun hzero => hr.empty (by omega)⟩
  · have := hr.success (h.some hne) hec
    omega
  · have := hr.error (h.some hne) hec
    omega

section Conforming

variable {s : Stream σ} (hs : s.Conforms) {bufs : List Buffer}
  (hsize : totalSize bufs < sizeValues)

include hs hsize

theorem reports_window (st : σ) :
    ReportsExactly (bufferArray bufs) (s.transferSome st (bufferArray bufs)).1 :=
  (reportsExactly_iff (Nat.lt_of_le_of_lt (window_bufferArray bufs).totalSize_le hsize)).mpr
    (hs st _)

theorem anyReadStream_reports (st : σ) :
    ReportsExactly bufs ((anyReadStream s).transferSome st bufs).1 :=
  (window_bufferArray bufs).reports (reports_window hs hsize st)

theorem anyWriteStream_reports (st : σ) :
    ReportsExactly bufs ((anyWriteStream s).transferSome st bufs).1 := by
  simp only [anyWriteStream]
  split_ifs with hempty
  · have hzero := (window_bufferArray bufs).isEmpty_iff.mp hempty
    exact ⟨fun hne => absurd hzero hne, fun hne => absurd hzero hne, fun _ => rfl⟩
  · exact (window_bufferArray bufs).reports (reports_window hs hsize st)

end Conforming

theorem logged_conforms {s : Stream σ} (hs : s.Conforms) : (logged s).Conforms :=
  fun st bufs => hs st.1 bufs

/-- The operation on the wrapped stream that an operation on its wrapper makes. -/
def narrow (c : Call) : Call := ⟨bufferArray c.bufs, c.results⟩

/-- What both wrappers do around a stream that records its operations. -/
structure Wraps (w : Stream (σ × List Call)) : Prop where
  reports : ∀ st bufs, totalSize bufs < sizeValues →
    ReportsExactly bufs (w.transferSome st bufs).1
  log : ∀ st bufs, totalSize bufs ≠ 0 →
    (w.transferSome st bufs).2.2 = st.2 ++ [narrow ⟨bufs, (w.transferSome st bufs).1⟩]
  window : ∀ st bufs, totalSize bufs ≠ 0 → totalSize bufs < sizeValues →
    (w.transferSome st bufs).1.payload ≤ totalSize (bufferArray bufs)

theorem wraps_anyReadStream {s : Stream σ} (hs : s.Conforms) :
    Wraps (anyReadStream (logged s)) where
  reports st _ hsize := anyReadStream_reports (logged_conforms hs) hsize st
  log _ _ _ := rfl
  window st _ _ hsize := (reports_window (logged_conforms hs) hsize st).payload_le

theorem anyWriteStream_of_ne {s : Stream σ} {bufs : List Buffer} (h : totalSize bufs ≠ 0)
    (st : σ) : (anyWriteStream s).transferSome st bufs = s.transferSome st (bufferArray bufs) :=
  if_neg fun hempty => h ((window_bufferArray bufs).isEmpty_iff.mp hempty)

theorem wraps_anyWriteStream {s : Stream σ} (hs : s.Conforms) :
    Wraps (anyWriteStream (logged s)) where
  reports st _ hsize := anyWriteStream_reports (logged_conforms hs) hsize st
  log st bufs hne := by
    rw [anyWriteStream_of_ne hne]
    rfl
  window st bufs hne hsize := by
    rw [anyWriteStream_of_ne hne]
    exact (reports_window (logged_conforms hs) hsize st).payload_le

/-- The operation moves bytes within its window. -/
def Narrowed (c : Call) : Prop := c.results.payload ≤ totalSize (bufferArray c.bufs)

theorem Narrowed.moved_eq {c : Call} (h : Narrowed c) : (narrow c).moved = c.moved :=
  (window_bufferArray c.bufs).take h

/-- Every round of the loop makes one operation on the wrapped stream, with the
window of what the cursor shows. -/
theorem transferLoop_log {w : Stream (σ × List Call)} (hw : Wraps w) {bytes : List Nat}
    (hbytes : bytes.length < sizeValues) {target : Nat} (htarget : target ≤ bytes.length)
    {fuel total : Nat} {st : σ × List Call} {c : ConsumingBuffers} {out : Outcome (σ × List Call)}
    (hpos : Position bytes c total) (h : transferLoop w target fuel st c total = some out) :
    out.state.2 = st.2 ++ out.calls.map narrow ∧ ∀ k ∈ out.calls, Narrowed k := by
  induction fuel generalizing st c total out with
  | zero => simp [transferLoop] at h
  | succ fuel ih =>
      simp only [transferLoop] at h
      by_cases hmore : total < target
      · have hlength : totalSize c.data = bytes.length - total := by
          rw [← length_flatten, hpos.rest, List.length_drop]
        have hne : totalSize c.data ≠ 0 := by omega
        have hsize : totalSize c.data < sizeValues := by omega
        have hlog := hw.log st c.data hne
        have hnarrow : Narrowed ⟨c.data, (w.transferSome st c.data).1⟩ := hw.window st _ hne hsize
        have hreports := (reportsExactly_iff hsize).mp (hw.reports st c.data hsize)
        obtain ⟨hadd, hpos', -⟩ := hpos.advance hreports (by rw [Nat.mod_eq_of_lt hbytes]; omega)
        rw [if_pos hmore, hadd] at h
        split_ifs at h with hstop
        · obtain rfl := Option.some.inj h
          refine ⟨hlog, fun k hk => ?_⟩
          obtain rfl := List.mem_singleton.mp hk
          exact hnarrow
        · obtain ⟨rest, hrest, rfl⟩ := Option.map_eq_some_iff.mp h
          obtain ⟨hlog', hnarrow'⟩ := ih hpos' hrest
          refine ⟨?_, fun k hk => ?_⟩
          · simp only [Outcome.after, hlog', hlog, List.map_cons, List.append_assoc,
              List.singleton_append]
          · rcases List.mem_cons.mp hk with rfl | hk
            · exact hnarrow
            · exact hnarrow' k hk
      · rw [if_neg hmore] at h
        obtain rfl := Option.some.inj h
        simp

/-- What a transfer of at least `n` bytes through a wrapper is to do: the wrapped
stream moves the bytes, a window at a time. -/
structure Through (bufs : List Buffer) (n : Nat) (out : Outcome (σ × List Call)) : Prop where
  transferred : Transferred bufs n out
  moved : out.state.2.flatMap Call.moved = (flatten bufs).take out.count
  reached : n ≤ out.count ∨
    (out.state.2.map fun c => c.results.ec).find? ErrorCode.isError = some out.ec
  narrow : ∀ c ∈ out.state.2, c.bufs.length ≤ maxIovec ∧ ∀ b ∈ c.bufs, b.size ≠ 0

/-- `run n` refuses what the sequence cannot hold, as it does over the stream
itself, and otherwise transfers at least `n` bytes. -/
structure AtLeastThrough (bufs : List Buffer)
    (run : Nat → Nat → Option (Outcome (σ × List Call))) : Prop where
  refuses : ∀ n < sizeValues, totalSize bufs < n → ∃ out, Returns (run n) out ∧
    out.ec = invalidArgument ∧ out.count = 0 ∧ out.state.2 = []
  transfers : ∀ n < sizeValues, n ≤ totalSize bufs →
    ∃ out, Returns (run n) out ∧ Through bufs n out

theorem transferLoop_through {w : Stream (σ × List Call)} (hw : Wraps w) {bufs : List Buffer}
    (hsize : totalSize bufs < sizeValues) (st : σ) {n : Nat} (hn : n ≤ totalSize bufs) :
    ∃ out, Returns (fun fuel => transferLoop w n fuel (st, []) (consumingBuffers bufs) 0) out ∧
      Through bufs n out := by
  have hexact : bufferSize bufs = totalSize bufs := by
    rw [bufferSize_eq, Nat.mod_eq_of_lt hsize]
  have hconforms : w.ConformsUpTo (totalSize bufs) := by
    intro st' bufs' hle
    have hlt := Nat.lt_of_le_of_lt hle hsize
    exact (reportsExactly_iff hlt).mp (hw.reports st' bufs' hlt)
  obtain ⟨out, hreturns, hmoves⟩ := transferLoop_returns hconforms (st, []) (hexact ▸ hn)
  have htransferred := hmoves.transferred (Nat.le_of_eq hexact)
  obtain ⟨fuel, hfuel⟩ := hreturns
  have hbytes : (flatten bufs).length < sizeValues := by rwa [length_flatten]
  obtain ⟨hlog, hnarrow⟩ := transferLoop_log hw hbytes (by rwa [length_flatten])
    (position_consumingBuffers bufs) (hfuel fuel (Nat.le_refl _))
  rw [List.nil_append] at hlog
  refine ⟨out, ⟨fuel, hfuel⟩, htransferred, ?_, ?_, ?_⟩
  · rw [hlog, List.flatMap_map, ← htransferred.moved]
    exact List.flatMap_congr fun c hc => (hnarrow c hc).moved_eq
  · by_cases hshort : out.count < n
    · refine .inr ?_
      rw [hlog, List.map_map]
      exact htransferred.first hshort
    · exact .inl (Nat.not_lt.mp hshort)
  · intro c hc
    rw [hlog] at hc
    obtain ⟨k, -, rfl⟩ := List.mem_map.mp hc
    exact ⟨(window_bufferArray k.bufs).length_le, (window_bufferArray k.bufs).size_ne⟩

theorem atLeastThrough_of_lt {w : Stream (σ × List Call)} (hw : Wraps w) {bufs : List Buffer}
    (hsize : totalSize bufs < sizeValues) (st : σ) :
    AtLeastThrough bufs (fun n fuel => transferAtLeast fuel w (st, []) bufs n) := by
  have hexact : bufferSize bufs = totalSize bufs := by
    rw [bufferSize_eq, Nat.mod_eq_of_lt hsize]
  refine ⟨fun n _ hn => ?_, fun n _ hn => ?_⟩
  · refine ⟨⟨invalidArgument, 0, [], (st, [])⟩, ⟨0, fun fuel _ => ?_⟩, rfl, rfl, rfl⟩
    exact if_pos (hexact ▸ hn)
  · obtain ⟨out, hreturns, hthrough⟩ := transferLoop_through hw hsize st hn
    refine ⟨out, ?_, hthrough⟩
    simpa only [transferAtLeast_of_le (hexact ▸ hn)] using hreturns

theorem through_of_lt {w : Stream (σ × List Call)} (hw : Wraps w) {bufs : List Buffer}
    (hsize : totalSize bufs < sizeValues) (st : σ) :
    ∃ out, Returns (fun fuel => transfer fuel w (st, []) bufs) out ∧
      Through bufs (totalSize bufs) out := by
  have hexact : bufferSize bufs = totalSize bufs := by
    rw [bufferSize_eq, Nat.mod_eq_of_lt hsize]
  simpa only [transfer, hexact] using transferLoop_through hw hsize st (Nat.le_refl _)

/-- What one operation on a wrapper is to do, with the operations it makes on the
wrapped stream. -/
structure Once (bufs : List Buffer) (r : Results Nat) (calls : List Call) : Prop where
  reports : ReportsExactly bufs r
  windows : ∀ c ∈ calls, Window bufs c.bufs
  asked : totalSize bufs ≠ 0 → ∃ window, calls = [⟨window, r⟩]
  moved : calls.flatMap Call.moved = (flatten bufs).take r.payload

theorem Wraps.once {w : Stream (σ × List Call)} (hw : Wraps w) {bufs : List Buffer}
    (hsize : totalSize bufs < sizeValues) (hne : totalSize bufs ≠ 0) (st : σ) :
    Once bufs (w.transferSome (st, []) bufs).1 (w.transferSome (st, []) bufs).2.2 := by
  have hlog := hw.log (st, []) bufs hne
  have hnarrow : Narrowed ⟨bufs, (w.transferSome (st, []) bufs).1⟩ := hw.window _ _ hne hsize
  rw [List.nil_append] at hlog
  refine ⟨hw.reports _ _ hsize, fun c hc => ?_, fun _ => ⟨bufferArray bufs, hlog⟩, ?_⟩
  · rw [hlog] at hc
    obtain rfl := List.mem_singleton.mp hc
    exact window_bufferArray bufs
  · rw [hlog, List.flatMap_singleton, hnarrow.moved_eq]
    rfl

theorem once_of_eq_zero {bufs : List Buffer} (hzero : totalSize bufs = 0) {r : Results Nat}
    (hr : ReportsExactly bufs r) {calls : List Call}
    (hcalls : ∀ c ∈ calls, c.bufs = bufferArray bufs) : Once bufs r calls := by
  have hempty : bufferArray bufs = [] :=
    List.isEmpty_iff.mp ((window_bufferArray bufs).isEmpty_iff.mpr hzero)
  refine ⟨hr, fun c hc => ?_, fun hne => absurd hzero hne, ?_⟩
  · rw [hcalls c hc]
    exact window_bufferArray bufs
  · rw [hr.empty hzero, List.take_zero, List.flatMap_eq_nil_iff]
    intro c hc
    simp [Call.moved, hcalls c hc, hempty]

theorem anyReadStream_once {s : Stream σ} (hs : s.Conforms) (st : σ) {bufs : List Buffer}
    (hsize : totalSize bufs < sizeValues) :
    Once bufs ((anyReadStream (logged s)).transferSome (st, []) bufs).1
      ((anyReadStream (logged s)).transferSome (st, []) bufs).2.2 := by
  have hw := wraps_anyReadStream hs
  by_cases hzero : totalSize bufs = 0
  · refine once_of_eq_zero hzero (hw.reports _ _ hsize) fun c hc => ?_
    obtain rfl : c = _ := by simpa [anyReadStream, logged] using hc
    rfl
  · exact hw.once hsize hzero st

theorem anyWriteStream_once {s : Stream σ} (hs : s.Conforms) (st : σ) {bufs : List Buffer}
    (hsize : totalSize bufs < sizeValues) :
    Once bufs ((anyWriteStream (logged s)).transferSome (st, []) bufs).1
        ((anyWriteStream (logged s)).transferSome (st, []) bufs).2.2 ∧
      (totalSize bufs = 0 →
        ((anyWriteStream (logged s)).transferSome (st, []) bufs).2.2 = []) := by
  have hw := wraps_anyWriteStream hs
  have hnone : totalSize bufs = 0 →
      ((anyWriteStream (logged s)).transferSome (st, []) bufs).2.2 = [] := by
    intro hzero
    simp only [anyWriteStream, if_pos ((window_bufferArray bufs).isEmpty_iff.mpr hzero)]
  refine ⟨?_, hnone⟩
  by_cases hzero : totalSize bufs = 0
  · refine once_of_eq_zero hzero (hw.reports _ _ hsize) fun c hc => ?_
    simp [hnone hzero] at hc
  · exact hw.once hsize hzero st

/-- One operation and the four composed transfers, through either wrapper around
any conforming stream, do on the sequence what they are for. -/
def TransparentOver (bufs : List Buffer) : Prop :=
  ∀ (σ : Type) (s : Stream σ) (st : σ), s.Conforms →
    (Once bufs ((anyReadStream (logged s)).transferSome (st, []) bufs).1
      ((anyReadStream (logged s)).transferSome (st, []) bufs).2.2) ∧
    (Once bufs ((anyWriteStream (logged s)).transferSome (st, []) bufs).1
        ((anyWriteStream (logged s)).transferSome (st, []) bufs).2.2 ∧
      (totalSize bufs = 0 →
        ((anyWriteStream (logged s)).transferSome (st, []) bufs).2.2 = [])) ∧
    AtLeastThrough bufs
      (fun n fuel => readAtLeast fuel (anyReadStream (logged s)) (st, []) bufs n) ∧
    AtLeastThrough bufs
      (fun n fuel => writeAtLeast fuel (anyWriteStream (logged s)) (st, []) bufs n) ∧
    (∃ out, Returns (fun fuel => read fuel (anyReadStream (logged s)) (st, []) bufs) out ∧
      Through bufs (totalSize bufs) out) ∧
    ∃ out, Returns (fun fuel => write fuel (anyWriteStream (logged s)) (st, []) bufs) out ∧
      Through bufs (totalSize bufs) out

theorem anyWriteStream_oneByte_conforms : (anyWriteStream (logged oneByte)).Conforms := by
  intro st bufs
  have hsame : ((anyWriteStream (logged oneByte)).transferSome st bufs).1 =
      (oneByte.transferSome () bufs).1 := by
    by_cases hzero : totalSize bufs = 0
    · have hempty := (bufferEmpty_iff bufs).mpr hzero
      simp only [anyWriteStream, if_pos ((window_bufferArray bufs).isEmpty_iff.mpr hzero), oneByte,
        hempty, if_true]
    · have hfull : bufferEmpty bufs = false :=
        eq_false_of_ne_true fun h => hzero ((bufferEmpty_iff bufs).mp h)
      have hwindow : bufferEmpty (bufferArray bufs) = false :=
        eq_false_of_ne_true fun h =>
          (window_bufferArray bufs).some hzero ((bufferEmpty_iff _).mp h)
      rw [anyWriteStream_of_ne hzero]
      simp only [logged, oneByte, hfull, hwindow]
  rw [hsame]
  exact oneByte_conforms () bufs

theorem not_transparentOver_of_le {bufs : List Buffer} (hsize : sizeValues ≤ totalSize bufs) :
    ¬ TransparentOver bufs := by
  intro h
  obtain ⟨-, -, -, -, -, out, hreturns, hthrough⟩ := h Unit oneByte () oneByte_conforms
  refine not_transferred_of_le anyWriteStream_oneByte_conforms (fun st bufs => ?_) hsize ((), [])
    ⟨out, hreturns, hthrough.transferred⟩
  simp only [anyWriteStream]
  split_ifs <;> rfl

/-- The wrappers are transparent on a buffer sequence exactly when the sizes of its
buffers add up to a `std::size_t`. -/
theorem type_erased_streams_transparent_iff (bufs : List Buffer) :
    TransparentOver bufs ↔ totalSize bufs < sizeValues := by
  constructor
  · intro h
    by_contra hsize
    exact not_transparentOver_of_le (Nat.not_lt.mp hsize) h
  · intro hsize σ s st hs
    have hread := wraps_anyReadStream hs
    have hwrite := wraps_anyWriteStream hs
    exact ⟨anyReadStream_once hs st hsize, anyWriteStream_once hs st hsize,
      atLeastThrough_of_lt hread hsize st, atLeastThrough_of_lt hwrite hsize st,
      through_of_lt hread hsize st, through_of_lt hwrite hsize st⟩

/-- `write` of 2^64 bytes through a wrapper writes none and reports success. -/
theorem anyWriteStream_repeatedRegion :
    oneByte.Conforms ∧ totalSize repeatedRegion = 2 ^ 64 ∧
      (∀ fuel, write (fuel + 1) (anyWriteStream (logged oneByte)) ((), []) repeatedRegion =
        some ⟨{}, 0, [], ((), [])⟩) ∧
      ¬ TransparentOver repeatedRegion := by
  have htotal := totalSize_repeatedRegion
  refine ⟨oneByte_conforms, htotal, fun fuel => ?_, not_transparentOver_of_le ?_⟩
  · have hzero : bufferSize repeatedRegion = 0 := by
      rw [bufferSize_eq, htotal]
      rfl
    rw [write, transfer, hzero]
    rfl
  · rw [htotal]
    exact Nat.le_refl _

end Capy.AnyStream
