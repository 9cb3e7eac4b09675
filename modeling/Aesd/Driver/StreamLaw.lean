import Aesd.Driver.Runs

/-!
# The write stream law

Whatever the chunks in which a stream is submitted, the device keeps the last
ten lines of what it accepted and the unterminated rest.
-/

namespace Aesd

open CSem LineStream Transition

/-- A write of some bytes for which every kernel service succeeds. -/
def Request.Succeeds : Request → Prop
  | .write outcome buf => buf ≠ [] ∧ outcome.locked = true ∧ outcome.krealloc ≠ .null ∧
      buf.length ≤ outcome.copied
  | _ => False

instance Request.decidableSucceeds : (request : Request) → Decidable request.Succeeds
  | .write outcome buf => inferInstanceAs (Decidable (buf ≠ [] ∧ outcome.locked = true ∧
      outcome.krealloc ≠ .null ∧ buf.length ≤ outcome.copied))
  | .read .. => inferInstanceAs (Decidable False)
  | .llseek .. => inferInstanceAs (Decidable False)
  | .ioctl .. => inferInstanceAs (Decidable False)

/-- The `count` argument of a call. -/
def Request.count : Request → Nat
  | .read _ count => count
  | .write _ buf => buf.length
  | .llseek .. => 0
  | .ioctl .. => 0

/-- The writes submit a stream: each offers an initial piece of what remains of
it, and what a write did not use is offered again. -/
def Submits : List UInt8 → List Event → Prop
  | stream, [] => stream = []
  | stream, event :: events =>
      (∃ outcome buf, event.request = .write outcome buf ∧ buf <+: stream) ∧
        Submits (stream.drop event.accepted.length) events

theorem Request.Succeeds.exists_write {request : Request} (h : request.Succeeds) :
    ∃ outcome buf, request = .write outcome buf := by
  cases request with
  | write outcome buf => exact ⟨outcome, buf, rfl⟩
  | read outcome count => exact absurd h id
  | llseek locked offset whence => exact absurd h id
  | ioctl locked cmd arg => exact absurd h id

theorem Request.Succeeds.kreallocSafe {request : Request} (h : request.Succeeds) (k : Kernel) :
    request.KreallocSafe k := by
  obtain ⟨outcome, buf, rfl⟩ := h.exists_write
  exact fun _ _ hnull => absurd hnull h.2.2.1

theorem Event.accepted_prefix {event : Event} {outcome : WriteOutcome} {buf : List UInt8}
    (hrequest : event.request = .write outcome buf) : event.accepted <+: buf := by
  rw [accepted_write hrequest]
  exact List.take_prefix _ _

/-- A stream that was submitted was accepted. -/
theorem acceptedBy_of_submits {stream : List UInt8} {events : List Event}
    (hsubmits : Submits stream events) : acceptedBy events = stream := by
  induction events generalizing stream with
  | nil => exact hsubmits.symm
  | cons event events ih =>
      obtain ⟨⟨outcome, buf, hrequest, hbuf⟩, hrest⟩ := hsubmits
      obtain ⟨remaining, rfl⟩ := (Event.accepted_prefix hrequest).trans hbuf
      rw [List.drop_left] at hrest
      rw [← ih hrest]
      rfl

/-- A write for which everything succeeds does not fail. -/
theorem WriteEffect.nonneg_of_succeeds {k k' : Kernel} {es : List BufferEntry}
    {outcome : WriteOutcome} {buf : List UInt8} {fPos : Int} {reply : Reply}
    (heffect : WriteEffect k es outcome buf fPos k' reply)
    (hsucceeds : (Request.write outcome buf).Succeeds) : 0 ≤ reply.retval := by
  obtain ⟨hbuf, hlocked, hanswer, hcopied⟩ := hsucceeds
  cases heffect with
  | interrupted hnot => simp [hlocked] at hnot
  | empty _ hnil => exact absurd hnil hbuf
  | noMemory _ _ hnull => exact absurd hnull hanswer
  | faultPending _ _ _ hlt => omega
  | faultEmpty _ _ _ hlt => omega
  | extended => exact Int.natCast_nonneg _
  | committed => exact Int.natCast_nonneg _

/-- A write with a newline that does not fail leaves nothing pending. -/
theorem WriteEffect.unterminatedSize_eq_zero {k k' : Kernel} {es : List BufferEntry}
    {outcome : WriteOutcome} {buf : List UInt8} {fPos : Int} {reply : Reply}
    (heffect : WriteEffect k es outcome buf fPos k' reply) (hmem : newline ∈ buf)
    (hnonneg : 0 ≤ reply.retval) : k'.dev.unterminatedSize = 0 := by
  cases heffect with
  | interrupted => exact absurd (Int.negSucc_lt_zero _) (Int.not_lt.mpr hnonneg)
  | empty => exact absurd (Int.negSucc_lt_zero _) (Int.not_lt.mpr hnonneg)
  | noMemory => exact absurd (Int.negSucc_lt_zero _) (Int.not_lt.mpr hnonneg)
  | faultPending => exact absurd (Int.negSucc_lt_zero _) (Int.not_lt.mpr hnonneg)
  | faultEmpty => exact absurd (Int.negSucc_lt_zero _) (Int.not_lt.mpr hnonneg)
  | extended _ _ _ _ hnot => exact absurd hmem hnot
  | committed => rfl

namespace Driver

variable {seek : FixedSizeLlseek} {d d' : Driver} {event : Event} {events : List Event}
  {es : List BufferEntry}

/-- The position of a file moves by what a write accepted. -/
theorem Step.write_fPos (hstep : Step seek d event d') (h : d.kernel.Stores es)
    {outcome : WriteOutcome} {buf : List UInt8} (hrequest : event.request = .write outcome buf) :
    event.reply.fPos = d.fPos event.file + event.accepted.length := by
  have hadmissible := hstep.admissible
  rw [hrequest] at hadmissible
  obtain ⟨hlower, hupper⟩ := hadmissible
  rw [Event.accepted_write hrequest]
  have hused := Log.length_consumed_le buf
  rcases (hstep.write_effect h hrequest).reply_cases with ⟨hneg, hpos⟩ | ⟨_, hretval, hpos⟩
  · rw [hpos, Int.toNat_of_nonpos (by omega), List.take_zero, List.length_nil]
    omega
  · rw [hpos, hretval, Int.toNat_natCast, Log.take_length_consumed,
      s64_of_lt (by omega) (by omega)]

/-- A write for which everything succeeds uses at least one byte, and what it
returns is the number of bytes used. -/
theorem Step.retval_of_succeeds (hstep : Step seek d event d') (h : d.kernel.Stores es)
    (hsucceeds : event.request.Succeeds) :
    1 ≤ event.reply.retval ∧ event.reply.retval ≤ event.request.count ∧
      event.reply.retval = event.accepted.length := by
  obtain ⟨outcome, buf, hrequest⟩ := hsucceeds.exists_write
  rw [hrequest] at hsucceeds ⊢
  have heffect := hstep.write_effect h hrequest
  have hnonneg := heffect.nonneg_of_succeeds hsucceeds
  have hpos := Log.length_consumed_pos hsucceeds.1
  have hused := Log.length_consumed_le buf
  rcases heffect.reply_cases with ⟨hneg, _⟩ | ⟨_, hretval, _⟩
  · omega
  · rw [Event.accepted_write hrequest, hretval, Int.toNat_natCast, Log.take_length_consumed]
    exact ⟨by omega, Int.ofNat_le.mpr hused, rfl⟩

/-- A run of writes that succeed. -/
abbrev WriteRun (seek : FixedSizeLlseek) (events : List Event) (d : Driver) : Prop :=
  Run (fun d event d' => event.request.Succeeds ∧ Step seek d event d') init events d

theorem run_of_writeRun (hrun : WriteRun seek events d) : Run (Step seek) init events d :=
  hrun.mono fun _ _ _ hstep => hstep.2

theorem safeRun_of_writeRun (hrun : WriteRun seek events d) :
    Run (SafeStep seek) init events d :=
  hrun.mono fun d _ _ hstep => ⟨hstep.2, hstep.1.kreallocSafe d.kernel⟩

theorem contents_of_writeRun (hrun : WriteRun seek events d) :
    d.kernel.committedBytes = .ok ((lines newline (acceptedBy events)).rtake 10) ∧
      d.kernel.pendingBytes = .ok (rest newline (acceptedBy events)) := by
  obtain ⟨es, h⟩ := holds_of_safeRun (safeRun_of_writeRun hrun)
  exact ⟨h.committedBytes_eq, h.pendingBytes_eq⟩

theorem retvals_of_writeRun (hrun : WriteRun seek events d) :
    ∀ event ∈ events, 1 ≤ event.reply.retval ∧ event.reply.retval ≤ event.request.count := by
  induction hrun with
  | nil => simp
  | snoc front last ih =>
      intro event hmem
      rcases List.mem_append.mp hmem with hmem | hmem
      · exact ih event hmem
      · obtain ⟨es, h⟩ := stores_of_run (run_of_writeRun front)
        rw [List.mem_singleton.mp hmem]
        obtain ⟨hlower, hupper, _⟩ := last.2.retval_of_succeeds h last.1
        exact ⟨hlower, hupper⟩

/-- The position of a file is the sum of what its writes returned. -/
theorem fPos_of_writeRun (hrun : WriteRun seek events d) (file : Nat) :
    d.fPos file =
      ((events.filter fun event => event.file = file).map fun event => event.reply.retval).sum := by
  induction hrun with
  | nil => rfl
  | @snoc d d' events event front last ih =>
      obtain ⟨es, h⟩ := stores_of_run (run_of_writeRun front)
      obtain ⟨_, _, hretval⟩ := last.2.retval_of_succeeds h last.1
      obtain ⟨outcome, buf, hrequest⟩ := last.1.exists_write
      have hpos := last.2.write_fPos h hrequest
      rw [last.2.serve_eq.2, List.filter_append, List.map_append, List.sum_append, ← ih]
      by_cases hfile : event.file = file
      · subst hfile
        rw [Function.update_self, hpos, ← hretval]
        simp
      · rw [Function.update_of_ne (Ne.symm hfile)]
        simp [hfile]

/-- From a run of successful writes on, the next one returns as well. -/
theorem write_returns (h : d.kernel.Stores es) {file : Nat} {request : Request}
    (hsucceeds : request.Succeeds) (hadmissible : request.Admissible (d.fPos file)) :
    ∃ d' reply, d.call seek file request = .ok (d', reply) := by
  obtain ⟨outcome, buf, rfl⟩ := hsucceeds.exists_write
  obtain ⟨hlower, hupper⟩ := hadmissible
  have hlength : buf.length < 2 ^ 63 := by omega
  obtain ⟨k', reply, hwrite, _⟩ := h.aesdWrite_effect outcome hlength (d.fPos file)
  refine ⟨⟨k', Function.update d.fPos file reply.fPos⟩, reply, ?_⟩
  simp only [call, Request.serve, hwrite, Exec.ok_bind]

/-- The write stream law: after any run of successful writes the device keeps
the last ten lines and the unterminated rest of the accepted stream, each write
uses between one byte and its whole buffer and moves its file by that much, and
two runs that submit the same stream leave the same contents. -/
theorem write_stream_law (seek : FixedSizeLlseek) {events : List Event} {d : Driver}
    (hrun : Run (Step seek) init events d)
    (hsucceeds : ∀ event ∈ events, event.request.Succeeds) :
    d.kernel.committedBytes = .ok ((lines newline (acceptedBy events)).rtake 10) ∧
      d.kernel.pendingBytes = .ok (rest newline (acceptedBy events)) ∧
      (∀ event ∈ events, 1 ≤ event.reply.retval ∧ event.reply.retval ≤ event.request.count) ∧
      (∀ file, d.fPos file = ((events.filter fun event => event.file = file).map
        fun event => event.reply.retval).sum) ∧
      (∀ file request, request.Succeeds → request.Admissible (d.fPos file) →
        ∃ d' reply, d.call seek file request = .ok (d', reply)) ∧
      (∀ stream events' d', Submits stream events → Run (Step seek) init events' d' →
        (∀ event ∈ events', event.request.Succeeds) → Submits stream events' →
        d'.kernel.committedBytes = d.kernel.committedBytes ∧
          d'.kernel.pendingBytes = d.kernel.pendingBytes) := by
  have hwrites : WriteRun seek events d := hrun.restrict hsucceeds
  obtain ⟨hcommitted, hpending⟩ := contents_of_writeRun hwrites
  refine ⟨hcommitted, hpending, retvals_of_writeRun hwrites, fPos_of_writeRun hwrites, ?_, ?_⟩
  · intro file request hsucceeds hadmissible
    obtain ⟨es, h⟩ := stores_of_run hrun
    exact write_returns h hsucceeds hadmissible
  · intro stream events' d' hsubmits hrun' hsucceeds' hsubmits'
    obtain ⟨hcommitted', hpending'⟩ := contents_of_writeRun (hrun'.restrict hsucceeds')
    rw [acceptedBy_of_submits hsubmits] at hcommitted hpending
    rw [acceptedBy_of_submits hsubmits'] at hcommitted' hpending'
    exact ⟨hcommitted'.trans hcommitted.symm, hpending'.trans hpending.symm⟩

/-- A write of "a\nb" uses the line only, and "b" is submitted again. -/
theorem write_stream_law_two : ∃ events d, Run (Step .reference) init events d ∧
    Submits [97, 10, 98] events ∧ d.kernel.committedBytes = .ok [[97, 10]] ∧
      d.kernel.pendingBytes = .ok [98] ∧ d.fPos 0 = 3 := by
  let line : BufferEntry := ⟨some 0, 2⟩
  let afterLine : Kernel := ⟨⟨[some [some 97, some 10, some 98]]⟩,
    ⟨none, 0, (CircularBuffer.init.addEntry line).1⟩⟩
  let afterRest : Kernel := ⟨⟨[some [some 97, some 10, some 98], some [some 98]]⟩,
    ⟨some 1, 1, (CircularBuffer.init.addEntry line).1⟩⟩
  have hline : (Request.write ⟨true, .moved, 3⟩ [97, 10, 98]).serve .reference Kernel.init 0 =
      .ok (afterLine, ⟨2, 2, [], some [97, 10, 98]⟩) := by decide +kernel
  have hrest : (Request.write ⟨true, .inPlace, 1⟩ [98]).serve .reference afterLine 2 =
      .ok (afterRest, ⟨1, 3, [], some [98]⟩) := by decide +kernel
  have hfirst := Step.of_serve init 0 (by decide) hline (by decide)
  have hsecond := Step.of_serve ⟨afterLine, Function.update init.fPos 0 2⟩ 0
    (by decide) hrest (by decide)
  have hrun := ((Run.nil init).snoc hfirst).snoc hsecond
  obtain ⟨hcommitted, hpending, _, hfPos, _⟩ :=
    write_stream_law .reference hrun (by simp [Request.Succeeds])
  refine ⟨_, _, hrun, ?_, hcommitted.trans ?_, hpending.trans ?_, ?_⟩
  · exact ⟨⟨_, _, rfl, List.prefix_refl _⟩, ⟨_, _, rfl, List.prefix_refl _⟩, rfl⟩
  · decide
  · decide
  · exact hfPos 0

end Driver

end Aesd
