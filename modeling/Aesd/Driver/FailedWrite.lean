import Aesd.Driver.StreamLaw

/-!
# Writes that fail

A write that fails leaves the device intact, except when `krealloc` fails while
bytes are pending: the null result then replaces the only pointer to them. As
long as that does not happen, pending bytes stay reachable, every read returns,
and nothing but accepted bytes is ever committed.
-/

namespace Aesd

open CSem LineStream Transition

namespace Driver

/-- Neither the contents nor any file position changed. -/
structure Intact (d d' : Driver) : Prop where
  committed : d'.kernel.committedBytes = d.kernel.committedBytes
  size : d'.kernel.dev.unterminatedSize = d.kernel.dev.unterminatedSize
  pending : d'.kernel.pendingBytes = d.kernel.pendingBytes
  fPos : d'.fPos = d.fPos

variable {seek : FixedSizeLlseek} {d d' : Driver} {event : Event} {events : List Event}
  {es : List BufferEntry} {log : Log}

theorem Step.fPos_of_failed (hstep : Step seek d event d') (h : d.kernel.Stores es)
    {outcome : WriteOutcome} {buf : List UInt8} (hrequest : event.request = .write outcome buf)
    (hneg : event.reply.retval < 0) : d'.fPos = d.fPos := by
  have hpos := hstep.write_fPos h hrequest
  rw [Event.accepted_write hrequest, Int.toNat_of_nonpos (by omega), List.take_zero,
    List.length_nil] at hpos
  rw [hstep.serve_eq.2, hpos]
  simp

/-- A failed write is harmless as long as `krealloc` keeps pending bytes. -/
theorem Step.intact_of_safe (hstep : Step seek d event d') (h : d.kernel.Holds es log)
    {outcome : WriteOutcome} {buf : List UInt8} (hrequest : event.request = .write outcome buf)
    (hneg : event.reply.retval < 0) (hsafe : KreallocSafe d.kernel outcome buf) :
    Intact d d' := by
  have heffect := hstep.write_effect h.toStores hrequest
  obtain ⟨es', h'⟩ := heffect.holds h hsafe (heffect.size_lt h.toStores hstep.fits)
  rw [if_neg (by omega)] at h'
  exact
    { committed := h'.committedBytes_eq.trans h.committedBytes_eq.symm
      size := h'.pending_size.trans h.pending_size.symm
      pending := h'.pendingBytes_eq.trans h.pendingBytes_eq.symm
      fPos := hstep.fPos_of_failed h.toStores hrequest hneg }

/-- The null result of `krealloc` replaces the pointer to the pending bytes. -/
theorem Step.lost_of_not_safe (hstep : Step seek d event d') (h : d.kernel.Holds es log)
    {outcome : WriteOutcome} {buf : List UInt8} (hrequest : event.request = .write outcome buf)
    (hfails : ¬ KreallocSafe d.kernel outcome buf) :
    0 < d'.kernel.dev.unterminatedSize ∧ d'.kernel.dev.unterminatedBuffptr = none := by
  simp only [KreallocSafe, not_forall] at hfails
  obtain ⟨hlocked, hbuf, hnull, hsize⟩ := hfails
  have heffect := hstep.write_effect h.toStores hrequest
  generalize d'.kernel = k' at heffect ⊢
  generalize event.reply = reply at heffect
  cases heffect with
  | interrupted hnot => simp [hlocked] at hnot
  | empty _ hnil => exact absurd hnil hbuf
  | noMemory => exact ⟨Nat.pos_of_ne_zero hsize, rfl⟩
  | faultPending _ _ hanswer => exact absurd hnull hanswer
  | faultEmpty _ _ hanswer => exact absurd hnull hanswer
  | extended _ _ hanswer => exact absurd hnull hanswer
  | committed _ _ hanswer => exact absurd hnull hanswer

theorem pendingBytes_of_lost {k : Kernel} (hsize : 0 < k.dev.unterminatedSize)
    (hptr : k.dev.unterminatedBuffptr = none) : k.pendingBytes = .error .nullPointer := by
  unfold Kernel.pendingBytes Heap.load
  rw [if_neg (by omega), hptr]

/-- A failed write leaves the device intact exactly when `krealloc` did not
fail on pending bytes. -/
theorem Step.intact_iff (hstep : Step seek d event d') (h : d.kernel.Holds es log)
    {outcome : WriteOutcome} {buf : List UInt8} (hrequest : event.request = .write outcome buf)
    (hneg : event.reply.retval < 0) :
    Intact d d' ↔ KreallocSafe d.kernel outcome buf := by
  constructor
  · intro hintact
    by_contra hfails
    obtain ⟨hsize, hptr⟩ := hstep.lost_of_not_safe h hrequest hfails
    have hpending := hintact.pending
    rw [pendingBytes_of_lost hsize hptr, h.pendingBytes_eq] at hpending
    cases hpending
  · exact hstep.intact_of_safe h hrequest hneg

theorem aesdRead_returns (h : d.kernel.Holds es log) (hlength : log.contents.length < 2 ^ 63)
    (outcome : ReadOutcome) (count : Nat) {fPos : Int} (hlower : 0 ≤ fPos)
    (hupper : fPos < 2 ^ 63) : ∃ reply, aesdRead d.kernel outcome count fPos = .ok reply := by
  obtain ⟨pos, rfl⟩ := Int.eq_ofNat_of_zero_le hlower
  cases hlocked : outcome.locked with
  | false => exact ⟨_, if_pos hlocked⟩
  | true => exact ⟨_, h.aesdRead_eq hlength hlocked count (by omega)⟩

/-- In every state reached without a `krealloc` failing on pending bytes, these
bytes are reachable and are what was written, nothing else was committed, reads
return, and a write that fails leaves the device intact exactly when the
condition is met once more. -/
theorem failed_write_intact (seek : FixedSizeLlseek) {events : List Event} {d : Driver}
    (hrun : Run (SafeStep seek) init events d) :
    (0 < d.kernel.dev.unterminatedSize → d.kernel.dev.unterminatedBuffptr ≠ none) ∧
      d.kernel.pendingBytes = .ok (rest newline (acceptedBy events)) ∧
      d.kernel.committedBytes = .ok ((lines newline (acceptedBy events)).rtake 10) ∧
      (∀ outcome count fPos, 0 ≤ fPos → fPos < 2 ^ 63 →
        ∃ reply, aesdRead d.kernel outcome count fPos = .ok reply) ∧
      (∀ event d' outcome buf, Step seek d event d' → event.request = .write outcome buf →
        event.reply.retval < 0 → (Intact d d' ↔ KreallocSafe d.kernel outcome buf)) := by
  obtain ⟨es, h⟩ := holds_of_safeRun hrun
  have hlength := h.length_contents_lt (total_of_run (run_of_safeRun hrun))
  refine ⟨?_, h.pendingBytes_eq, h.committedBytes_eq, ?_, ?_⟩
  · intro hpos hnull
    have hlost := pendingBytes_of_lost hpos hnull
    rw [h.pendingBytes_eq] at hlost
    cases hlost
  · intro outcome count fPos hlower hupper
    exact aesdRead_returns h hlength outcome count hlower hupper
  · intro event d' outcome buf hstep hrequest hneg
    exact hstep.intact_iff h hrequest hneg

/-- After "a" was accepted, a write whose copy from the user fails changes nothing. -/
theorem failed_write_intact_fault : ∃ d d' event, Step .reference d event d' ∧
    event.reply.retval = -eFault ∧ d.kernel.pendingBytes = .ok [97] ∧ Intact d d' := by
  let pending : Kernel := ⟨⟨[some [some 97]]⟩, ⟨some 0, 1, CircularBuffer.init⟩⟩
  let faulted : Kernel := ⟨⟨[some [some 97, some 0]]⟩, ⟨some 0, 1, CircularBuffer.init⟩⟩
  have hwrite : (Request.write ⟨true, .inPlace, 1⟩ [97]).serve .reference Kernel.init 0 =
      .ok (pending, ⟨1, 1, [], some [97]⟩) := by decide +kernel
  have hfault : (Request.write ⟨true, .inPlace, 0⟩ [98]).serve .reference pending 1 =
      .ok (faulted, ⟨-14, 1, [], none⟩) := by decide +kernel
  have hfirst := Step.of_serve init 0 (by decide) hwrite (by decide)
  have hsecond := Step.of_serve ⟨pending, Function.update init.fPos 0 1⟩ 0 (by decide) hfault
    (by decide)
  have hrun := (Run.nil init).snoc (show SafeStep .reference _ _ _ from
    ⟨hfirst, fun _ _ hnull => by cases hnull⟩)
  obtain ⟨_, hpending, _, _, hintact⟩ := failed_write_intact .reference hrun
  refine ⟨_, _, _, hsecond, rfl, hpending, ?_⟩
  exact (hintact _ _ _ _ hsecond rfl (by decide)).mpr fun _ _ hnull => by cases hnull

/-- After "a" was accepted, a write for which `krealloc` fails loses it: the
size stays, the pointer is null, the next read dereferences it, and the next
newline commits a byte that nobody wrote. -/
theorem failed_write_loses_pending : ∃ d failed d' written d'', Reachable .reference d ∧
    Step .reference d failed d' ∧ failed.reply.retval = -eNoMem ∧ ¬ Intact d d' ∧
    d.kernel.pendingBytes = .ok [97] ∧ d'.kernel.dev.unterminatedSize = 1 ∧
    d'.kernel.dev.unterminatedBuffptr = none ∧
    aesdRead d'.kernel ⟨true, 1⟩ 1 0 = .error .nullPointer ∧
    Step .reference d' written d'' ∧ d''.kernel.committedBytes = .error .uninitialized := by
  let pending : Kernel := ⟨⟨[some [some 97]]⟩, ⟨some 0, 1, CircularBuffer.init⟩⟩
  let lost : Kernel := ⟨⟨[some [some 97]]⟩, ⟨none, 1, CircularBuffer.init⟩⟩
  let garbage : Kernel := ⟨⟨[some [some 97], some [none, some 10]]⟩,
    ⟨none, 0, (CircularBuffer.init.addEntry ⟨some 1, 2⟩).1⟩⟩
  have hwrite : (Request.write ⟨true, .inPlace, 1⟩ [97]).serve .reference Kernel.init 0 =
      .ok (pending, ⟨1, 1, [], some [97]⟩) := by decide +kernel
  have hfail : (Request.write ⟨true, .null, 1⟩ [98]).serve .reference pending 1 =
      .ok (lost, ⟨-12, 1, [], none⟩) := by decide +kernel
  have hnewline : (Request.write ⟨true, .inPlace, 1⟩ [10]).serve .reference lost 1 =
      .ok (garbage, ⟨1, 2, [], some [10]⟩) := by decide +kernel
  have hfirst := Step.of_serve init 0 (by decide) hwrite (by decide)
  have hsecond := Step.of_serve ⟨pending, Function.update init.fPos 0 1⟩ 0 (by decide) hfail
    (by decide)
  have hthird := Step.of_serve
    ⟨lost, Function.update (Function.update init.fPos 0 1) 0 1⟩ 0 (by decide) hnewline (by decide)
  refine ⟨_, _, _, _, _, ⟨_, Run.single hfirst⟩, hsecond, rfl, ?_, by decide, rfl, rfl,
    by decide +kernel, hthird, by decide +kernel⟩
  intro hintact
  have hpending : lost.pendingBytes = pending.pendingBytes := hintact.pending
  exact absurd hpending (by decide)

end Driver

end Aesd
