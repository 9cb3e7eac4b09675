import Aesd.Driver.ReadEffect
import Aesd.Foundation.Run
import Mathlib.Logic.Function.Basic

/-!
# Runs of the driver

Any number of open files share the device; each has its own position, and every
call holds the device lock, so a run is a sequence of whole calls. A run in
which `krealloc` never fails while bytes are pending keeps the device equal to
the log of everything it accepted.
-/

namespace Aesd

open CSem Transition

/-- The device with the position of every open file, zero when it is opened. -/
structure Driver where
  kernel : Kernel
  fPos : Nat → Int

/-- Freshly initialised. -/
def Driver.init : Driver := ⟨Kernel.init, fun _ => 0⟩

/-- A system call on an open file, with the outcomes of the kernel services. -/
inductive Request
  | read (outcome : ReadOutcome) (count : Nat)
  | write (outcome : WriteOutcome) (buf : List UInt8)
  | llseek (locked : Bool) (offset : Int) (whence : Whence)
  | ioctl (locked : Bool) (cmd : Nat) (arg : Option AesdSeekto)

/-- The range check that the kernel makes before it passes a call on: the
position and the end of the access are nonnegative file offsets. -/
def Request.Admissible (fPos : Int) : Request → Prop
  | .read _ count => 0 ≤ fPos ∧ fPos + count < 2 ^ 63
  | .write _ buf => 0 ≤ fPos ∧ fPos + buf.length < 2 ^ 63
  | .llseek .. => True
  | .ioctl .. => True

instance Request.decidableAdmissible (fPos : Int) :
    (request : Request) → Decidable (request.Admissible fPos)
  | .read _ count => inferInstanceAs (Decidable (0 ≤ fPos ∧ fPos + count < 2 ^ 63))
  | .write _ buf => inferInstanceAs (Decidable (0 ≤ fPos ∧ fPos + buf.length < 2 ^ 63))
  | .llseek .. => inferInstanceAs (Decidable True)
  | .ioctl .. => inferInstanceAs (Decidable True)

/-- A call that returned. -/
structure Event where
  file : Nat
  request : Request
  reply : Reply

/-- Pass a request on to the file operation it is for. -/
def Request.serve (seek : FixedSizeLlseek) (k : Kernel) (fPos : Int) :
    Request → Exec (Kernel × Reply)
  | .read outcome count => do
      let reply ← aesdRead k outcome count fPos
      .ok (k, reply)
  | .write outcome buf => aesdWrite k outcome buf fPos
  | .llseek locked offset whence => .ok (k, aesdLlseek seek k locked offset whence fPos)
  | .ioctl locked cmd arg => do
      let reply ← aesdIoctl seek k locked cmd arg fPos
      .ok (k, reply)

namespace Driver

/-- A call leaves the device it changed and moves the position of its file. -/
def call (seek : FixedSizeLlseek) (d : Driver) (file : Nat) (request : Request) :
    Exec (Driver × Reply) := do
  let (kernel, reply) ← request.serve seek d.kernel (d.fPos file)
  .ok (⟨kernel, Function.update d.fPos file reply.fPos⟩, reply)

/-- One call. The memory in use fits into the kernel's half of the addresses. -/
structure Step (seek : FixedSizeLlseek) (d : Driver) (event : Event) (d' : Driver) : Prop where
  admissible : event.request.Admissible (d.fPos event.file)
  returns : d.call seek event.file event.request = .ok (d', event.reply)
  fits : d'.kernel.heap.total < 2 ^ 63

/-- Some run from initialisation ends here. -/
def Reachable (seek : FixedSizeLlseek) (d : Driver) : Prop :=
  ∃ events, Run (Step seek) init events d

end Driver

/-- A request does not meet a failing `krealloc` while bytes are pending. -/
def Request.KreallocSafe (k : Kernel) : Request → Prop
  | .write outcome buf => Aesd.KreallocSafe k outcome buf
  | _ => True

/-- One call that meets the condition on `krealloc`. -/
def Driver.SafeStep (seek : FixedSizeLlseek) (d : Driver) (event : Event) (d' : Driver) : Prop :=
  Driver.Step seek d event d' ∧ event.request.KreallocSafe d.kernel

/-- Some run without a failing `krealloc` on pending bytes ends here. -/
def Driver.SafelyReachable (seek : FixedSizeLlseek) (d : Driver) : Prop :=
  ∃ events, Run (Driver.SafeStep seek) Driver.init events d

/-- The bytes that a call put into the device: the first ones of its buffer, as
many as it returned. -/
def Event.accepted (event : Event) : List UInt8 :=
  match event.request with
  | .write _ buf => buf.take event.reply.retval.toNat
  | _ => []

theorem Event.accepted_write {event : Event} {outcome : WriteOutcome} {buf : List UInt8}
    (hrequest : event.request = .write outcome buf) :
    event.accepted = buf.take event.reply.retval.toNat := by
  simp only [accepted, hrequest]

theorem Event.accepted_of_not_write {event : Event}
    (hnot : ∀ outcome buf, event.request ≠ .write outcome buf) : event.accepted = [] := by
  unfold accepted
  split
  next buf hrequest => exact absurd hrequest (hnot _ buf)
  next => rfl

/-- The stream that a run put into the device. -/
def acceptedBy (events : List Event) : List UInt8 := (events.map Event.accepted).flatten

@[simp] theorem acceptedBy_append (front back : List Event) :
    acceptedBy (front ++ back) = acceptedBy front ++ acceptedBy back := by
  simp [acceptedBy]

@[simp] theorem acceptedBy_singleton (event : Event) : acceptedBy [event] = event.accepted := by
  simp [acceptedBy]

/-- A write fails and moves nothing, or returns the number of bytes it used. -/
theorem WriteEffect.reply_cases {k k' : Kernel} {es : List BufferEntry} {outcome : WriteOutcome}
    {buf : List UInt8} {fPos : Int} {reply : Reply}
    (heffect : WriteEffect k es outcome buf fPos k' reply) :
    (reply.retval < 0 ∧ reply.fPos = fPos) ∨
      (buf ≠ [] ∧ reply.retval = (Log.consumed buf).length ∧
        reply.fPos = s64 (fPos + (Log.consumed buf).length)) := by
  cases heffect with
  | interrupted => exact Or.inl ⟨Int.negSucc_lt_zero _, rfl⟩
  | empty => exact Or.inl ⟨Int.negSucc_lt_zero _, rfl⟩
  | noMemory => exact Or.inl ⟨Int.negSucc_lt_zero _, rfl⟩
  | faultPending => exact Or.inl ⟨Int.negSucc_lt_zero _, rfl⟩
  | faultEmpty => exact Or.inl ⟨Int.negSucc_lt_zero _, rfl⟩
  | extended _ hbuf _ _ hnot => exact Or.inr ⟨hbuf, by rw [Log.consumed_of_notMem hnot],
      by rw [Log.consumed_of_notMem hnot]⟩
  | committed _ hbuf => exact Or.inr ⟨hbuf, rfl, rfl⟩

namespace Driver

variable {seek : FixedSizeLlseek} {d d' : Driver} {event : Event} {events : List Event}
  {es : List BufferEntry}

theorem Step.of_serve (d : Driver) (file : Nat) {request : Request} {kernel : Kernel}
    {reply : Reply}
    (hadmissible : request.Admissible (d.fPos file))
    (hserve : request.serve seek d.kernel (d.fPos file) = .ok (kernel, reply))
    (hfits : kernel.heap.total < 2 ^ 63) :
    Step seek d ⟨file, request, reply⟩ ⟨kernel, Function.update d.fPos file reply.fPos⟩ where
  admissible := hadmissible
  returns := by simp only [call, hserve, Exec.ok_bind]
  fits := hfits

theorem Step.serve_eq (hstep : Step seek d event d') :
    event.request.serve seek d.kernel (d.fPos event.file) = .ok (d'.kernel, event.reply) ∧
      d'.fPos = Function.update d.fPos event.file event.reply.fPos := by
  obtain ⟨⟨kernel, reply⟩, hserve, heq⟩ := Exec.bind_eq_ok.mp hstep.returns
  obtain ⟨hdriver, hreply⟩ := Prod.mk.inj (Except.ok.inj heq)
  rw [← hdriver, ← hreply]
  exact ⟨hserve, rfl⟩

/-- Only writes change the device. -/
theorem serve_kernel_eq {request : Request} {k k' : Kernel} {fPos : Int} {reply : Reply}
    (hserve : request.serve seek k fPos = .ok (k', reply))
    (hnot : ∀ outcome buf, request ≠ .write outcome buf) : k' = k := by
  cases request with
  | read outcome count =>
      obtain ⟨_, _, heq⟩ := Exec.bind_eq_ok.mp hserve
      exact (Prod.mk.inj (Except.ok.inj heq)).1.symm
  | write outcome buf => exact absurd rfl (hnot outcome buf)
  | llseek locked offset whence => exact (Prod.mk.inj (Except.ok.inj hserve)).1.symm
  | ioctl locked cmd arg =>
      obtain ⟨_, _, heq⟩ := Exec.bind_eq_ok.mp hserve
      exact (Prod.mk.inj (Except.ok.inj heq)).1.symm

theorem Step.kernel_eq (hstep : Step seek d event d')
    (hnot : ∀ outcome buf, event.request ≠ .write outcome buf) : d'.kernel = d.kernel :=
  serve_kernel_eq hstep.serve_eq.1 hnot

theorem Step.write_effect (hstep : Step seek d event d') (h : d.kernel.Stores es)
    {outcome : WriteOutcome} {buf : List UInt8} (hrequest : event.request = .write outcome buf) :
    WriteEffect d.kernel es outcome buf (d.fPos event.file) d'.kernel event.reply := by
  have hwrite := hstep.serve_eq.1
  have hadmissible := hstep.admissible
  rw [hrequest] at hwrite hadmissible
  obtain ⟨hlower, hupper⟩ := hadmissible
  have hlength : buf.length < 2 ^ 63 := by omega
  obtain ⟨k', reply, hreturns, heffect⟩ :=
    h.aesdWrite_effect outcome hlength (d.fPos event.file)
  obtain ⟨hkernel, hreply⟩ := Prod.mk.inj (Except.ok.inj (hwrite.symm.trans hreturns))
  rw [hkernel, hreply]
  exact heffect

/-- Every call keeps the memory discipline, whatever fails. -/
theorem Step.stores (hstep : Step seek d event d') (h : ∃ es, d.kernel.Stores es) :
    ∃ es, d'.kernel.Stores es := by
  obtain ⟨es, h⟩ := h
  by_cases hwrite : ∃ outcome buf, event.request = .write outcome buf
  · obtain ⟨outcome, buf, hrequest⟩ := hwrite
    have heffect := hstep.write_effect h hrequest
    exact heffect.stores h (heffect.size_lt h hstep.fits)
  · rw [hstep.kernel_eq fun outcome buf hrequest => hwrite ⟨outcome, buf, hrequest⟩]
    exact ⟨es, h⟩

/-- A call that meets the condition on `krealloc` adds what it accepted. -/
theorem SafeStep.holds {stream : List UInt8} (hstep : SafeStep seek d event d')
    (h : ∃ es, d.kernel.Holds es (Log.ofStream stream)) :
    ∃ es, d'.kernel.Holds es (Log.ofStream (stream ++ event.accepted)) := by
  obtain ⟨es, h⟩ := h
  obtain ⟨hstep, hsafe⟩ := hstep
  by_cases hwrite : ∃ outcome buf, event.request = .write outcome buf
  · obtain ⟨outcome, buf, hrequest⟩ := hwrite
    rw [hrequest] at hsafe
    have heffect := hstep.write_effect h.toStores hrequest
    obtain ⟨es', h'⟩ := heffect.holds h hsafe (heffect.size_lt h.toStores hstep.fits)
    refine ⟨es', ?_⟩
    rw [Event.accepted_write hrequest]
    rcases heffect.reply_cases with ⟨hneg, _⟩ | ⟨_, hretval, _⟩
    · rw [if_neg (by omega)] at h'
      rw [Int.toNat_of_nonpos (by omega), List.take_zero, List.append_nil]
      exact h'
    · rw [if_pos (by omega), Log.accept_ofStream] at h'
      rw [hretval, Int.toNat_natCast, Log.take_length_consumed]
      exact h'
  · have hnot : ∀ outcome buf, event.request ≠ .write outcome buf :=
      fun outcome buf hrequest => hwrite ⟨outcome, buf, hrequest⟩
    rw [hstep.kernel_eq hnot, Event.accepted_of_not_write hnot, List.append_nil]
    exact ⟨es, h⟩

theorem total_of_run (hrun : Run (Step seek) init events d) : d.kernel.heap.total < 2 ^ 63 := by
  refine hrun.invariant (fun d => d.kernel.heap.total < 2 ^ 63)
    (fun _ _ _ _ hstep => hstep.fits) ?_
  decide

theorem stores_of_run (hrun : Run (Step seek) init events d) : ∃ es, d.kernel.Stores es :=
  hrun.invariant (fun d => ∃ es, d.kernel.Stores es) (fun _ _ _ h hstep => hstep.stores h)
    ⟨[], Kernel.init_stores⟩

theorem run_of_safeRun (hrun : Run (SafeStep seek) init events d) : Run (Step seek) init events d :=
  hrun.mono fun _ _ _ hstep => hstep.1

/-- After a safe run the device holds the log of the accepted stream. -/
theorem holds_of_safeRun (hrun : Run (SafeStep seek) init events d) :
    ∃ es, d.kernel.Holds es (Log.ofStream (acceptedBy events)) := by
  refine hrun.history_invariant
    (fun events d => ∃ es, d.kernel.Holds es (Log.ofStream (acceptedBy events))) ?_
    ⟨[], Kernel.init_holds⟩
  intro events d event d' h hstep
  rw [acceptedBy_append, acceptedBy_singleton]
  exact hstep.holds h

theorem SafelyReachable.reachable (hreach : SafelyReachable seek d) : Reachable seek d := by
  obtain ⟨events, hrun⟩ := hreach
  exact ⟨events, run_of_safeRun hrun⟩

/-- The driver after one write of "a\n". -/
def oneLine : Driver :=
  ⟨⟨⟨[some [some 97, some 10]]⟩, ⟨none, 0, (CircularBuffer.init.addEntry ⟨some 0, 2⟩).1⟩⟩,
    Function.update init.fPos 0 2⟩

def oneLineEvent : Event := ⟨0, .write ⟨true, .moved, 2⟩ [97, 10], ⟨2, 2, [], some [97, 10]⟩⟩

theorem oneLine_step (seek : FixedSizeLlseek) : Step seek init oneLineEvent oneLine := by
  have hwrite : (Request.write ⟨true, .moved, 2⟩ [97, 10]).serve seek Kernel.init 0 =
      .ok (oneLine.kernel, ⟨2, 2, [], some [97, 10]⟩) := by
    change aesdWrite Kernel.init ⟨true, .moved, 2⟩ [97, 10] 0 = _
    decide +kernel
  exact Step.of_serve init 0 (by decide) hwrite (by decide)

theorem oneLine_safelyReachable (seek : FixedSizeLlseek) : SafelyReachable seek oneLine :=
  ⟨_, Run.single ⟨oneLine_step seek, fun _ _ hnull => by cases hnull⟩⟩

theorem oneLine_reachable (seek : FixedSizeLlseek) : Reachable seek oneLine :=
  (oneLine_safelyReachable seek).reachable

end Driver

end Aesd
