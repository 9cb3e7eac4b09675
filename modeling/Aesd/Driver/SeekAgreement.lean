import Aesd.Driver.Runs
import Mathlib.Order.Bounds.Basic

/-!
# Seekable and readable positions

A read takes the unterminated bytes for data behind the stored entries. A seek
takes the end of the stored entries for the end of the data, so the two agree
when no unterminated bytes are kept.
-/

namespace Aesd

open CSem Transition

/-- Some read with a positive count returns at least one byte here. -/
def Kernel.ReadableAt (k : Kernel) (position : Nat) : Prop :=
  ∃ outcome count reply, outcome.locked = true ∧ 0 < count ∧
    aesdRead k outcome count position = .ok reply ∧ 1 ≤ reply.retval

/-- Some read with a positive count returns zero here. -/
def Kernel.ReadsNothingAt (k : Kernel) (position : Nat) : Prop :=
  ∃ outcome count reply, outcome.locked = true ∧ 0 < count ∧
    aesdRead k outcome count position = .ok reply ∧ reply.retval = 0

/-- The seek succeeds and moves the file position to the target. -/
def Kernel.SeeksTo (k : Kernel) (seek : FixedSizeLlseek) (fPos offset : Int) (whence : Whence)
    (target : Nat) : Prop :=
  aesdLlseek seek k true offset whence fPos = { retval := target, fPos := target }

/-- A seek reaches every position that can be read, and a seek to the end the
first position at which there is nothing to read. -/
def Kernel.SeeksWhatItReads (k : Kernel) (seek : FixedSizeLlseek) (fPos : Int) : Prop :=
  (∀ position < 2 ^ 63, k.ReadableAt position →
    k.SeeksTo seek fPos position .set position) ∧
  ∃ last, k.SeeksTo seek fPos 0 .fromEnd last ∧
    IsLeast {position | position < 2 ^ 63 ∧ k.ReadsNothingAt position} last

/-- Positions among the unterminated bytes, behind the first of them. -/
def Kernel.InsidePending (k : Kernel) (position : Nat) : Prop :=
  k.dev.buffer.size < position ∧ position < k.dev.buffer.size + k.dev.unterminatedSize

namespace Kernel.Holds

variable {k : Kernel} {es : List BufferEntry} {log : Log}

/-- The contents end behind the unterminated bytes. -/
theorem length_contents_eq (h : k.Holds es log) (hfit : log.contents.length < 2 ^ 63) :
    log.contents.length = k.dev.buffer.size + k.dev.unterminatedSize := by
  rw [h.size_eq hfit, h.sum_entrySizes, h.pending_size, Log.contents, List.length_append]

theorem readableAt_iff (h : k.Holds es log) (hfit : log.contents.length < 2 ^ 63)
    {position : Nat} (hlt : position < 2 ^ 63) :
    k.ReadableAt position ↔ position < log.contents.length := by
  constructor
  · rintro ⟨outcome, count, reply, hlocked, hcount, hread, hretval⟩
    rw [h.aesdRead_eq hfit hlocked count hlt] at hread
    rw [← Log.length_readAt_pos_iff hcount]
    split at hread
    next hfault => exact Nat.lt_of_le_of_lt (Nat.zero_le _) hfault
    next =>
      rw [← Except.ok.inj hread] at hretval
      exact Int.ofNat_le.mp hretval
  · intro hbefore
    have hpos := Log.length_readAt_pos Nat.one_pos hbefore
    refine ⟨⟨true, (log.readAt 1 position).length⟩, 1, _, rfl, Nat.one_pos,
      h.aesdRead_eq hfit rfl 1 hlt, ?_⟩
    rw [if_neg (Nat.lt_irrefl _)]
    exact Int.ofNat_le.mpr hpos

theorem readsNothingAt_iff (h : k.Holds es log) (hfit : log.contents.length < 2 ^ 63)
    {position : Nat} (hlt : position < 2 ^ 63) :
    k.ReadsNothingAt position ↔ log.contents.length ≤ position := by
  constructor
  · rintro ⟨outcome, count, reply, hlocked, hcount, hread, hretval⟩
    rw [h.aesdRead_eq hfit hlocked count hlt] at hread
    rw [← Nat.not_lt, ← Log.length_readAt_pos_iff hcount]
    split at hread
    next =>
      rw [← Except.ok.inj hread] at hretval
      exact absurd hretval (show ¬ -eFault = 0 by decide)
    next =>
      rw [← Except.ok.inj hread] at hretval
      rw [Int.ofNat_eq_zero.mp hretval]
      exact Nat.lt_irrefl 0
  · intro hend
    have hnil : log.readAt 1 position = [] := Log.readAt_of_none (Log.locate_eq_none_iff.mpr hend) 1
    refine ⟨⟨true, 0⟩, 1, _, rfl, Nat.one_pos, h.aesdRead_eq hfit rfl 1 hlt, ?_⟩
    rw [hnil]
    rfl

/-- A seek from the start reaches the positions up to the end of the entries. -/
theorem seeksTo_set_iff (h : k.Holds es log) (hfit : log.contents.length < 2 ^ 63)
    (seek : FixedSizeLlseek) (fPos : Int) (position : Nat) :
    k.SeeksTo seek fPos position .set position ↔ position ≤ k.dev.buffer.size := by
  have hlength := h.length_contents_eq hfit
  have haccept := seek.accept fPos position .set k.dev.buffer.size (Int.natCast_nonneg _)
  have hreject := seek.reject fPos position .set k.dev.buffer.size (fun htell => by cases htell.1)
  unfold SeeksTo aesdLlseek
  rw [if_neg (by decide), s64_natCast (by omega)]
  constructor
  · intro hseeks
    by_contra hbeyond
    rw [hreject fun hrange => hbeyond (Int.ofNat_le.mp hrange.2)] at hseeks
    have hretval := congrArg Reply.retval hseeks
    simp only [eInval] at hretval
    omega
  · intro hle
    rw [haccept (Int.ofNat_le.mpr hle)]
    rfl

/-- A seek to the end reaches the end of the entries. -/
theorem seeksTo_fromEnd_iff (h : k.Holds es log) (hfit : log.contents.length < 2 ^ 63)
    (seek : FixedSizeLlseek) (fPos : Int) (last : Nat) :
    k.SeeksTo seek fPos 0 .fromEnd last ↔ last = k.dev.buffer.size := by
  have hlength := h.length_contents_eq hfit
  have htarget : Whence.target .fromEnd fPos 0 k.dev.buffer.size = k.dev.buffer.size :=
    Int.add_zero _
  have haccept := seek.accept fPos 0 .fromEnd k.dev.buffer.size
  rw [htarget] at haccept
  unfold SeeksTo aesdLlseek
  rw [if_neg (by decide), s64_natCast (by omega),
    haccept (Int.natCast_nonneg _) (Int.le_refl _)]
  constructor
  · intro hseeks
    exact (Int.ofNat_inj.mp (congrArg Reply.retval hseeks)).symm
  · rintro rfl
    rfl

/-- The first position at which there is nothing to read is the end of the contents. -/
theorem isLeast_readsNothingAt_iff (h : k.Holds es log) (hfit : log.contents.length < 2 ^ 63)
    (last : Nat) :
    IsLeast {position | position < 2 ^ 63 ∧ k.ReadsNothingAt position} last ↔
      last = log.contents.length := by
  have hleast : IsLeast {position | position < 2 ^ 63 ∧ k.ReadsNothingAt position}
      log.contents.length := by
    refine ⟨⟨hfit, (h.readsNothingAt_iff hfit hfit).mpr (Nat.le_refl _)⟩, ?_⟩
    rintro position ⟨hlt, hnothing⟩
    exact (h.readsNothingAt_iff hfit hlt).mp hnothing
  constructor
  · exact fun hlast => hlast.unique hleast
  · rintro rfl
    exact hleast

theorem readable_seeksTo_iff (h : k.Holds es log) (hfit : log.contents.length < 2 ^ 63)
    (seek : FixedSizeLlseek) (fPos : Int) {position : Nat} (hlt : position < 2 ^ 63) :
    (k.ReadableAt position → k.SeeksTo seek fPos position .set position) ↔
      ¬ k.InsidePending position := by
  rw [h.readableAt_iff hfit hlt, h.seeksTo_set_iff hfit, h.length_contents_eq hfit]
  unfold InsidePending
  omega

theorem seeksWhatItReads_iff (h : k.Holds es log) (hfit : log.contents.length < 2 ^ 63)
    (seek : FixedSizeLlseek) (fPos : Int) :
    k.SeeksWhatItReads seek fPos ↔ k.dev.unterminatedSize = 0 := by
  have hlength := h.length_contents_eq hfit
  constructor
  · rintro ⟨_, last, hseeks, hleast⟩
    rw [h.seeksTo_fromEnd_iff hfit] at hseeks
    rw [h.isLeast_readsNothingAt_iff hfit] at hleast
    omega
  · intro hzero
    refine ⟨fun position hlt => ?_, k.dev.buffer.size, ?_, ?_⟩
    · rw [h.readable_seeksTo_iff hfit seek fPos hlt, InsidePending]
      omega
    · exact (h.seeksTo_fromEnd_iff hfit seek fPos _).mpr rfl
    · rw [h.isLeast_readsNothingAt_iff hfit]
      omega

end Kernel.Holds

namespace Driver

/-- In every state reached without a `krealloc` failing on pending bytes, seeks
and reads agree on the positions exactly when nothing is pending. The readable
positions that a seek refuses are those among the pending bytes, behind the
first of them. -/
theorem seek_agreement_iff (seek : FixedSizeLlseek) {d : Driver}
    (hreach : SafelyReachable seek d) (fPos : Int) :
    (d.kernel.SeeksWhatItReads seek fPos ↔ d.kernel.dev.unterminatedSize = 0) ∧
      ∀ position < 2 ^ 63,
        ((d.kernel.ReadableAt position → d.kernel.SeeksTo seek fPos position .set position) ↔
          ¬ d.kernel.InsidePending position) := by
  obtain ⟨events, hrun⟩ := hreach
  obtain ⟨es, h⟩ := holds_of_safeRun hrun
  have hfit := h.length_contents_lt (total_of_run (run_of_safeRun hrun))
  refine ⟨h.seeksWhatItReads_iff hfit seek fPos, ?_⟩
  intro position hlt
  exact h.readable_seeksTo_iff hfit seek fPos hlt

/-- Nothing is pending after "a\n", and both of its bytes can be sought. -/
theorem seek_agreement_oneLine :
    oneLine.kernel.SeeksWhatItReads .reference 7 ∧
      ∀ position < 2 ^ 63, oneLine.kernel.ReadableAt position →
        oneLine.kernel.SeeksTo .reference 7 position .set position := by
  obtain ⟨hagrees, _⟩ := seek_agreement_iff .reference (oneLine_safelyReachable .reference) 7
  have hseeks := hagrees.mpr (by decide +kernel)
  exact ⟨hseeks, hseeks.1⟩

/-- After "ab" without a newline the second byte can be read but not sought, and
a seek to the end goes to the first. -/
theorem seek_agreement_pending : ∃ d, SafelyReachable .reference d ∧
    d.kernel.ReadableAt 1 ∧ ¬ d.kernel.SeeksTo .reference 2 1 .set 1 ∧
    d.kernel.SeeksTo .reference 2 0 .fromEnd 0 ∧ d.kernel.ReadableAt 0 ∧
    ¬ d.kernel.SeeksWhatItReads .reference 2 := by
  let pending : Kernel := ⟨⟨[some [some 97, some 98]]⟩, ⟨some 0, 2, CircularBuffer.init⟩⟩
  have hwrite : (Request.write ⟨true, .moved, 2⟩ [97, 98]).serve .reference Kernel.init 0 =
      .ok (pending, ⟨2, 2, [], some [97, 98]⟩) := by decide +kernel
  have hstep := Step.of_serve init 0 (by decide) hwrite (by decide)
  have hsafe : SafeStep .reference init ⟨0, .write ⟨true, .moved, 2⟩ [97, 98], ⟨2, 2, [], some [97, 98]⟩⟩
      ⟨pending, Function.update init.fPos 0 2⟩ := ⟨hstep, fun _ _ hnull => by cases hnull⟩
  have hsecond : pending.ReadableAt 1 :=
    ⟨⟨true, 1⟩, 1, ⟨1, 2, [98], some [98]⟩, rfl, Nat.one_pos, by decide +kernel, by decide⟩
  have hrefused : ¬ pending.SeeksTo .reference 2 1 .set 1 := by
    unfold Kernel.SeeksTo
    decide +kernel
  refine ⟨⟨pending, Function.update init.fPos 0 2⟩, ⟨_, Run.single hsafe⟩, hsecond, hrefused,
    ?_, ?_, ?_⟩
  · unfold Kernel.SeeksTo
    decide +kernel
  · exact ⟨⟨true, 1⟩, 1, ⟨1, 1, [97], some [97]⟩, rfl, Nat.one_pos, by decide +kernel, by decide⟩
  · rintro ⟨hset, _⟩
    exact hrefused (hset 1 (by decide) hsecond)

end Driver

end Aesd
