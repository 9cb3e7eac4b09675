import Aesd.Driver.Runs
import Aesd.Foundation.Window

/-!
# Readers of a growing device

A file that only reads follows the stream that all writers together put into the
device. Its position counts from the start of the ten lines that are kept, so
every line the device gives up moves it on: it receives the bytes of the stream
in order, none twice, and misses as many as were given up.
-/

namespace Aesd

open CSem LineStream StreamWindow Transition

/-- The bytes of a stream that the device no longer keeps: all lines but the
last ten. -/
def evicted (stream : List UInt8) : List UInt8 := ((lines newline stream).rdrop 10).flatten

theorem evicted_append_contents (stream : List UInt8) :
    evicted stream ++ (Log.ofStream stream).contents = stream := by
  have hlines : (lines newline stream).rdrop 10 ++ (lines newline stream).rtake 10 =
      lines newline stream := List.take_append_drop _ _
  change _ ++ (((lines newline stream).rtake 10).flatten ++ rest newline stream) = stream
  rw [evicted, ← List.append_assoc, ← List.flatten_append, hlines, lines_flatten_append_rest]

/-- What is given up stays given up. -/
theorem length_evicted_le (stream more : List UInt8) :
    (evicted stream).length ≤ (evicted (stream ++ more)).length :=
  (rdrop_isPrefix (lines_prefix_append newline stream more) 10).flatten.length_le

/-- The contents from a position on are the stream from behind what was given up. -/
theorem drop_contents (stream : List UInt8) (position : Nat) :
    (Log.ofStream stream).contents.drop position =
      stream.drop ((evicted stream).length + position) := by
  have hdrop := @List.drop_left _ (evicted stream) (Log.ofStream stream).contents
  rw [evicted_append_contents] at hdrop
  rw [← List.drop_drop, hdrop]

theorem length_contents_add (stream : List UInt8) :
    (evicted stream).length + (Log.ofStream stream).contents.length = stream.length := by
  rw [← List.length_append, evicted_append_contents]

def Request.IsRead (request : Request) : Prop :=
  ∃ outcome count, request = .read outcome count

/-- The bytes that a call handed to its caller: none when it failed. -/
def Event.received (event : Event) : List UInt8 :=
  match event.request with
  | .read .. => if 0 ≤ event.reply.retval then event.reply.delivered else []
  | _ => []

theorem Event.received_read {event : Event} {outcome : ReadOutcome} {count : Nat}
    (hrequest : event.request = .read outcome count) :
    event.received = if 0 ≤ event.reply.retval then event.reply.delivered else [] := by
  simp only [received, hrequest]

/-- All bytes that the reads of a file returned. -/
def receivedBy (file : Nat) (events : List Event) : List UInt8 :=
  ((events.filter fun event => event.file = file).map Event.received).flatten

theorem receivedBy_append_of_eq {file : Nat} {event : Event} (hfile : event.file = file)
    (events : List Event) :
    receivedBy file (events ++ [event]) = receivedBy file events ++ event.received := by
  simp [receivedBy, hfile]

theorem receivedBy_append_of_ne {file : Nat} {event : Event} (hfile : event.file ≠ file)
    (events : List Event) : receivedBy file (events ++ [event]) = receivedBy file events := by
  simp [receivedBy, hfile]

namespace Driver

variable {seek : FixedSizeLlseek} {d d' : Driver} {event : Event} {events : List Event}
  {stream : List UInt8}

/-- What a read hands out lies in the stream, at the position of the file behind
what was given up; it moves the position by as much, and it is empty only at the
end of the stream or when the read failed. -/
theorem Step.received_eq (hstep : Step seek d event d')
    (h : ∃ es, d.kernel.Holds es (Log.ofStream stream))
    (hfit : (Log.ofStream stream).contents.length < 2 ^ 63) {outcome : ReadOutcome} {count : Nat}
    (hrequest : event.request = .read outcome count) :
    ∃ position : Nat, d.fPos event.file = position ∧
      event.received <+: stream.drop ((evicted stream).length + position) ∧
      event.reply.fPos = (position + event.received.length : Nat) ∧
      (0 ≤ event.reply.retval → event.reply.retval = event.received.length ∧
        (0 < count → (event.reply.retval = 0 ↔
          stream.length ≤ (evicted stream).length + position))) := by
  obtain ⟨es, h⟩ := h
  have hadmissible := hstep.admissible
  have hserve := hstep.serve_eq.1
  rw [hrequest] at hadmissible hserve
  obtain ⟨hlower, hupper⟩ := hadmissible
  obtain ⟨position, hposition⟩ := Int.eq_ofNat_of_zero_le hlower
  rw [hposition] at hserve hupper
  obtain ⟨reply, hread, heq⟩ := Exec.bind_eq_ok.mp hserve
  have hreply : reply = event.reply := (Prod.mk.inj (Except.ok.inj heq)).2
  have hbytes : (Log.ofStream stream).readAt count position <+:
      stream.drop ((evicted stream).length + position) := by
    rw [← drop_contents, ← Log.readAt_append_drop _ count position]
    exact List.prefix_append _ _
  have hend := length_contents_add stream
  have hfailed : ∀ n, ¬ 0 ≤ Int.negSucc n := fun n => Int.not_le.mpr (Int.negSucc_lt_zero n)
  refine ⟨position, hposition, ?_⟩
  rw [Event.received_read hrequest, ← hreply]
  cases hlocked : outcome.locked with
  | false =>
      rw [aesdRead, if_pos hlocked] at hread
      cases hread
      exact ⟨List.nil_prefix, rfl, fun hnonneg => absurd hnonneg (hfailed _)⟩
  | true =>
      rw [h.aesdRead_eq hfit hlocked count (by omega)] at hread
      have hreply' := (Except.ok.inj hread).symm
      by_cases hfault : outcome.copied < ((Log.ofStream stream).readAt count position).length
      · rw [if_pos hfault] at hreply'
        rw [hreply']
        exact ⟨List.nil_prefix, rfl, fun hnonneg => absurd hnonneg (hfailed _)⟩
      · rw [if_neg hfault] at hreply'
        rw [hreply', if_pos (Int.natCast_nonneg _)]
        refine ⟨hbytes, rfl, fun _ => ⟨rfl, fun hcount => ?_⟩⟩
        have hpos := @Log.length_readAt_pos_iff (Log.ofStream stream) count position hcount
        dsimp only
        omega

/-- A file that only reads follows the stream. -/
def Follows (file : Nat) (events : List Event) (d : Driver) : Prop :=
  ∃ position : Nat, d.fPos file = position ∧
    Received (acceptedBy events) (receivedBy file events) (evicted (acceptedBy events)).length
      position

theorem length_contents_of_safeRun (hrun : Run (SafeStep seek) init events d) :
    (Log.ofStream (acceptedBy events)).contents.length < 2 ^ 63 := by
  obtain ⟨es, h⟩ := holds_of_safeRun hrun
  exact h.length_contents_lt (total_of_run (run_of_safeRun hrun))

/-- Calls on other files only make the stream grow. -/
theorem Follows.other {file : Nat} (h : Follows file events d) (hstep : Step seek d event d')
    (hfile : event.file ≠ file) : Follows file (events ++ [event]) d' := by
  obtain ⟨position, hposition, h⟩ := h
  refine ⟨position, ?_, ?_⟩
  · rw [hstep.serve_eq.2, Function.update_of_ne (Ne.symm hfile)]
    exact hposition
  · rw [receivedBy_append_of_ne hfile, acceptedBy_append, acceptedBy_singleton]
    exact h.grow _ (length_evicted_le _ _)

/-- A read on the file takes what comes next. -/
theorem Follows.read {file : Nat} (h : Follows file events d)
    (hrun : Run (SafeStep seek) init events d) (hstep : Step seek d event d')
    (hfile : event.file = file) {outcome : ReadOutcome} {count : Nat}
    (hrequest : event.request = .read outcome count) : Follows file (events ++ [event]) d' := by
  obtain ⟨position, hposition, h⟩ := h
  obtain ⟨position', hposition', hbytes, hnext, _⟩ :=
    hstep.received_eq (holds_of_safeRun hrun) (length_contents_of_safeRun hrun) hrequest
  rw [hfile, hposition] at hposition'
  obtain rfl := Int.ofNat_inj.mp hposition'
  have haccepted : event.accepted = [] := Event.accepted_of_not_write fun _ _ hwrite => by
    cases hrequest.symm.trans hwrite
  refine ⟨position + event.received.length, ?_, ?_⟩
  · rw [hstep.serve_eq.2, hfile, Function.update_self]
    exact hnext
  · rw [receivedBy_append_of_eq hfile, acceptedBy_append, acceptedBy_singleton, haccepted,
      List.append_nil]
    exact h.read hbytes

theorem follows_of_safeRun (hrun : Run (SafeStep seek) init events d) {file : Nat}
    (hreads : ∀ event ∈ events, event.file = file → event.request.IsRead) :
    Follows file events d := by
  induction hrun with
  | nil => exact ⟨0, rfl, .start _ _⟩
  | @snoc _ _ events event front last ih =>
      have h := ih fun event hmem => hreads event (List.mem_append_left _ hmem)
      by_cases hfile : event.file = file
      · have hlast : event ∈ events ++ [event] := List.mem_concat_self
        obtain ⟨outcome, count, hrequest⟩ := hreads event hlast hfile
        exact h.read front last.1 hfile hrequest
      · exact h.other last.1 hfile

/-- A file that only reads, however its reads are cut and whatever the other
files do, receives the bytes of the accepted stream in order and none twice, and
of the stream in front of its place it misses as many bytes as the device has
given up: none of them before the first line is dropped. Its next read goes on
behind that place, and finds nothing only when the stream has not got beyond it. -/
theorem reader_law (seek : FixedSizeLlseek) {events : List Event} {d : Driver}
    (hrun : Run (SafeStep seek) init events d) {file : Nat}
    (hreads : ∀ event ∈ events, event.file = file → event.request.IsRead) :
    d.fPos file = (receivedBy file events).length ∧
      (receivedBy file events).Sublist ((acceptedBy events).take
        ((evicted (acceptedBy events)).length + (receivedBy file events).length)) ∧
      (evicted (acceptedBy events) = [] → receivedBy file events <+: acceptedBy events) ∧
      ∀ event d', SafeStep seek d event d' → event.file = file →
        ∀ outcome count, event.request = .read outcome count →
          event.received <+: (acceptedBy events).drop
            ((evicted (acceptedBy events)).length + (receivedBy file events).length) ∧
          (0 ≤ event.reply.retval → event.reply.retval = event.received.length ∧
            (0 < count → (event.reply.retval = 0 ↔ (acceptedBy events).length ≤
              (evicted (acceptedBy events)).length + (receivedBy file events).length))) := by
  obtain ⟨position, hposition, h⟩ := follows_of_safeRun hrun hreads
  have hlength := h.length_eq
  refine ⟨by rw [hlength, hposition], hlength ▸ h.sublist, ?_, ?_⟩
  · intro hnil
    rw [hnil] at h
    exact h.isPrefix
  · intro event d' hstep hfile outcome count hrequest
    obtain ⟨position', hposition', hbytes, _, hretval⟩ :=
      hstep.1.received_eq (holds_of_safeRun hrun) (length_contents_of_safeRun hrun) hrequest
    rw [hfile, hposition] at hposition'
    obtain rfl := Int.ofNat_inj.mp hposition'
    rw [hlength]
    exact ⟨hbytes, hretval⟩

/-- File 1 reads "a" of the line that file 0 wrote, and then what is left of it. -/
theorem reader_law_oneLine : ∃ events d event d', Run (SafeStep .reference) init events d ∧
    SafeStep .reference d event d' ∧ acceptedBy events = [97, 10] ∧
    receivedBy 1 events = [97] ∧ receivedBy 1 events <+: acceptedBy events ∧
    event.received = [10] ∧ event.received <+: (acceptedBy events).drop 1 := by
  let second : Driver := ⟨oneLine.kernel, Function.update oneLine.fPos 1 1⟩
  have hwrite : SafeStep .reference init oneLineEvent oneLine :=
    ⟨oneLine_step .reference, fun _ _ hnull => by cases hnull⟩
  have hfirst : (Request.read ⟨true, 1⟩ 1).serve .reference oneLine.kernel 0 =
      .ok (oneLine.kernel, ⟨1, 1, [97], some [97]⟩) := by decide +kernel
  have hlast : (Request.read ⟨true, 5⟩ 5).serve .reference oneLine.kernel 1 =
      .ok (oneLine.kernel, ⟨1, 2, [10], some [10]⟩) := by decide +kernel
  have hread := Step.of_serve oneLine 1 (by decide) hfirst (by decide)
  have hnext := Step.of_serve second 1 (by decide) hlast (by decide)
  have hrun := ((Run.nil init).snoc hwrite).snoc ⟨hread, trivial⟩
  have hreads : ∀ event ∈ [] ++ [oneLineEvent] ++ [⟨1, .read ⟨true, 1⟩ 1, ⟨1, 1, [97], some [97]⟩⟩],
      event.file = 1 → event.request.IsRead := by
    intro event hmem hfile
    rcases List.mem_cons.mp hmem with rfl | hmem
    · cases hfile
    · exact ⟨_, _, congrArg Event.request (List.mem_singleton.mp hmem)⟩
  obtain ⟨_, _, hprefix, hreads⟩ := reader_law .reference hrun hreads
  have hreceived := (hreads _ _ ⟨hnext, trivial⟩ rfl _ _ rfl).1
  exact ⟨_, _, _, _, hrun, ⟨hnext, trivial⟩, rfl, rfl, hprefix rfl, rfl, hreceived⟩

end Driver

end Aesd
