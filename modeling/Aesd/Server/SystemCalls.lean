import Aesd.Server.LineBuffer

/-!
# The calls that the server makes

Any environment can be made to write down the calls that it answers, with the
answers. What a function of the server does is then read off from the calls that
it adds to the list, whatever their outcomes.
-/

namespace Aesd

open CSem

/-- A call of the server and what came back. -/
inductive SystemCall
  | openFile (result : CallResult Nat)
  | closeFile (fd : Nat)
  | read (result : CallResult (List UInt8))
  | write (fd : Nat) (offered : List UInt8) (result : CallResult Nat)
  | ioctl (fd : Nat) (arg : AesdSeekto) (result : CallResult Unit)
  | recv (result : CallResult (List UInt8))
  | send (offered : List UInt8) (result : CallResult Nat)
  | realloc (answer : Resize)
  | startReading
  | stopReading
  | startWriting
  | stopWriting
  deriving DecidableEq

/-- A read or a write that came back with an error other than EINTR, or a resize
without memory. -/
def SystemCall.isFailure : SystemCall → Bool
  | .read .failed | .write _ _ .failed | .realloc .null => true
  | _ => false

/-- The calls so far, next to the state of the environment. -/
abbrev Logged (σ : Type) := σ × List SystemCall

variable {σ α : Type}

/-- Make a call and write it down with its result. -/
def logCall (event : CallResult α → SystemCall) (call : σ → Exec (σ × CallResult α))
    (s : Logged σ) : Exec (Logged σ × CallResult α) := do
  let (state, result) ← call s.1
  .ok ((state, s.2 ++ [event result]), result)

/-- An environment that writes down its calls. -/
def Os.logged (os : Os σ) : Os (Logged σ) where
  openFile s writable := logCall .openFile (fun state => os.openFile state writable) s
  closeFile s fd := do
    let state ← os.closeFile s.1 fd
    .ok (state, s.2 ++ [.closeFile fd])
  read s fd count := logCall .read (fun state => os.read state fd count) s
  write s fd bytes := logCall (.write fd bytes) (fun state => os.write state fd bytes) s
  ioctl s fd arg := logCall (.ioctl fd arg) (fun state => os.ioctl state fd arg) s
  recv s fd count := logCall .recv (fun state => os.recv state fd count) s
  send s fd bytes := logCall (.send bytes) (fun state => os.send state fd bytes) s
  realloc s :=
    let (state, answer) := os.realloc s.1
    ((state, s.2 ++ [.realloc answer]), answer)
  terminationFlag s :=
    let (state, terminated) := os.terminationFlag s.1
    ((state, s.2), terminated)
  startReading s := (os.startReading s.1, s.2 ++ [.startReading])
  stopReading s := (os.stopReading s.1, s.2 ++ [.stopReading])
  startWriting s := (os.startWriting s.1, s.2 ++ [.startWriting])
  stopWriting s := (os.stopWriting s.1, s.2 ++ [.stopWriting])

/-- The calls that have been added since then. -/
def Adds (before after : Logged σ) (calls : List SystemCall) : Prop := after.2 = before.2 ++ calls

theorem Adds.refl (s : Logged σ) : Adds s s [] := (List.append_nil _).symm

theorem Adds.trans {s middle s' : Logged σ} {front back : List SystemCall}
    (hfront : Adds s middle front) (hback : Adds middle s' back) : Adds s s' (front ++ back) := by
  rw [Adds, hback, hfront, List.append_assoc]

theorem Adds.unique {s s' : Logged σ} {calls calls' : List SystemCall} (h : Adds s s' calls)
    (h' : Adds s s' calls') : calls = calls' :=
  List.append_cancel_left (h.symm.trans h')

theorem logCall_adds {event : CallResult α → SystemCall} {call : σ → Exec (σ × CallResult α)}
    {s s' : Logged σ} {result : CallResult α}
    (hcall : logCall event call s = .ok (s', result)) : Adds s s' [event result] := by
  obtain ⟨_, _, heq⟩ := Exec.bind_eq_ok.mp hcall
  cases heq
  rfl

theorem closeFile_adds {os : Os σ} {s s' : Logged σ} {fd : Nat}
    (hclose : os.logged.closeFile s fd = .ok s') : Adds s s' [.closeFile fd] := by
  obtain ⟨_, _, heq⟩ := Exec.bind_eq_ok.mp hclose
  cases heq
  rfl

/-- A call that is repeated while it is interrupted is interrupted some times and
then has its result. -/
theorem retryOnEintr_adds {event : CallResult α → SystemCall}
    {call : σ → Exec (σ × CallResult α)} {fuel : Nat} {s s' : Logged σ} {result : Option α}
    (hretry : retryOnEintr (logCall event call) fuel s = .ok (s', result)) :
    ∃ count, Adds s s' (List.replicate count (event .interrupted) ++
      [event (result.elim .failed .done)]) := by
  obtain ⟨before, ⟨count, hadds⟩, hcall⟩ := retryOnEintr_sound
    (fun t => ∃ count, Adds s t (List.replicate count (event .interrupted)))
    (fun t t' ⟨count, hadds⟩ hcall => ⟨count + 1, by
      rw [List.replicate_succ']
      exact hadds.trans (logCall_adds hcall)⟩)
    ⟨0, .refl s⟩ hretry
  exact ⟨count, hadds.trans (logCall_adds hcall)⟩

/-! ## Calls of a kind -/

/-- Calls of a kind, and whether one of them failed. -/
structure CallsOf (kind : SystemCall → Bool) (calls : List SystemCall) (failed : Bool) : Prop where
  kind : ∀ call ∈ calls, kind call = true
  failed_eq : calls.any SystemCall.isFailure = failed

namespace CallsOf

variable {kind kind' : SystemCall → Bool} {front back : List SystemCall} {failed : Bool}

theorem nil : CallsOf kind [] false := ⟨nofun, rfl⟩

theorem single {call : SystemCall} (hkind : kind call = true) :
    CallsOf kind [call] call.isFailure := by
  refine ⟨fun other hmem => ?_, Bool.or_false _⟩
  rw [List.mem_singleton.mp hmem]
  exact hkind

theorem append (hfront : CallsOf kind front false) (hback : CallsOf kind back failed) :
    CallsOf kind (front ++ back) failed := by
  refine ⟨fun call hmem => ?_, ?_⟩
  · rcases List.mem_append.mp hmem with hmem | hmem
    · exact hfront.kind call hmem
    · exact hback.kind call hmem
  · rw [List.any_append, hfront.failed_eq, hback.failed_eq, Bool.false_or]

/-- The calls of an interrupted call that is repeated. -/
theorem retry (event : CallResult α → SystemCall) (hkind : ∀ result, kind (event result) = true)
    (hdone : ∀ value, (event (.done value)).isFailure = false)
    (hinterrupted : (event .interrupted).isFailure = false)
    (hfailed : (event .failed).isFailure = true) (count : Nat) (result : Option α) :
    CallsOf kind (List.replicate count (event .interrupted) ++
      [event (result.elim .failed .done)]) result.isNone := by
  refine append ⟨fun call hmem => ?_, ?_⟩ ?_
  · rw [List.eq_of_mem_replicate hmem]
    exact hkind _
  · rw [List.any_eq_false]
    intro call hmem
    rw [List.eq_of_mem_replicate hmem, hinterrupted]
    exact Bool.false_ne_true
  · cases result with
    | none =>
        have hlast := single (hkind .failed)
        rwa [hfailed] at hlast
    | some value =>
        have hlast := single (hkind (.done value))
        rwa [hdone] at hlast

end CallsOf

/-! ## Reading a line -/

/-- A call with which a line is read. -/
def SystemCall.isReadOrResize : SystemCall → Bool
  | .read _ | .realloc _ => true
  | _ => false

section

variable {os : Os σ} {fuel fd : Nat}

/-- Collecting bytes makes one resize. -/
theorem collect_adds {kind : SystemCall → Bool} (hkind : ∀ answer, kind (.realloc answer) = true)
    {s : LineBuffer (Logged σ)} {bytes : List UInt8}
    {round : Round (LineBuffer (Logged σ)) (LineBuffer (Logged σ) × LineEnd)}
    (hcollect : s.collect os.logged bytes = .ok round) :
    ∃ calls, Adds s.proc.state (LineBuffer.stateAfter round) calls ∧
      CallsOf kind calls (LineBuffer.hasFailed round) := by
  obtain ⟨hstate, hfailed⟩ := LineBuffer.collect_state hcollect
  rw [hstate, hfailed]
  refine ⟨[.realloc (os.realloc s.proc.state.1).2], rfl, ?_⟩
  have hcalls := CallsOf.single (hkind (os.realloc s.proc.state.1).2)
  have hsame : (SystemCall.realloc (os.realloc s.proc.state.1).2).isFailure =
      decide ((os.logged.realloc s.proc.state).2 = .null) := by
    change _ = decide ((os.realloc s.proc.state.1).2 = .null)
    cases (os.realloc s.proc.state.1).2 <;> rfl
  rwa [hsame] at hcalls

theorem readLineRound_adds {s : LineBuffer (Logged σ)}
    {round : Round (LineBuffer (Logged σ)) (LineBuffer (Logged σ) × LineEnd)}
    (hround : readLineRound os.logged fuel fd s = .ok round) :
    ∃ calls, Adds s.proc.state (LineBuffer.stateAfter round) calls ∧
      CallsOf SystemCall.isReadOrResize calls (LineBuffer.hasFailed round) := by
  obtain ⟨⟨state, result⟩, hread, hround⟩ := Exec.bind_eq_ok.mp hround
  have hread : retryOnEintr (logCall .read fun state => os.read state fd buffsize) fuel
      s.proc.state = .ok (state, result) := hread
  obtain ⟨count, hadds⟩ := retryOnEintr_adds hread
  have hreads : CallsOf SystemCall.isReadOrResize _ _ :=
    CallsOf.retry .read (fun _ => rfl) (fun _ => rfl) rfl rfl count result
  rcases result with _ | ⟨_ | ⟨byte, bytes⟩⟩
  · cases hround
    exact ⟨_, hadds, hreads⟩
  · cases hround
    exact ⟨_, hadds, hreads⟩
  · have hresize : ∀ answer, SystemCall.isReadOrResize (.realloc answer) = true := fun _ => rfl
    obtain ⟨calls, hmore, hcalls⟩ := collect_adds hresize hround
    exact ⟨_, hadds.trans hmore, hreads.append hcalls⟩

/-- Reading a line starts reading, and stops it unless a read or a resize
failed. -/
theorem readLine_adds {proc proc' : Process (Logged σ)} {line line' : Option Ptr}
    {eof eof' ok : Bool}
    (hreturns : aesdsocketReadLine os.logged fuel fd proc line eof =
      .ok (proc', ok, line', eof')) :
    ∃ calls failed, CallsOf SystemCall.isReadOrResize calls failed ∧
      Adds proc.state proc'.state
        ([.startReading] ++ calls ++ (if failed then [] else [.stopReading])) := by
  obtain ⟨⟨s, lineEnd⟩, hloop, hreturns⟩ := Exec.bind_eq_ok.mp hreturns
  obtain ⟨calls, hadds, hcalls⟩ : ∃ calls,
      Adds (os.logged.startReading proc.state) s.proc.state calls ∧
        CallsOf SystemCall.isReadOrResize calls (decide (lineEnd = .failed)) := by
    refine loop.sound
      (fun t => ∃ calls, Adds (os.logged.startReading proc.state) t.proc.state calls ∧
        CallsOf SystemCall.isReadOrResize calls false)
      (fun r => ∃ calls, Adds (os.logged.startReading proc.state) r.1.proc.state calls ∧
        CallsOf SystemCall.isReadOrResize calls (decide (r.2 = .failed)))
      ?_ ?_ ⟨[], .refl _, .nil⟩ hloop
    · rintro t next ⟨calls, hadds, hcalls⟩ hround
      obtain ⟨more, hmore, hcalls'⟩ := readLineRound_adds hround
      exact ⟨_, hadds.trans hmore, hcalls.append hcalls'⟩
    · rintro t result ⟨calls, hadds, hcalls⟩ hround
      obtain ⟨more, hmore, hcalls'⟩ := readLineRound_adds hround
      exact ⟨_, hadds.trans hmore, hcalls.append hcalls'⟩
  have hstart : Adds proc.state (os.logged.startReading proc.state) [.startReading] := rfl
  refine ⟨calls, _, hcalls, ?_⟩
  cases lineEnd with
  | failed =>
      -- the macros jump past the stop
      obtain ⟨heap, _, heq⟩ := Exec.bind_eq_ok.mp hreturns
      cases heq
      exact (hstart.trans hadds).trans (.refl _)
  | eol =>
      obtain ⟨heap, _, heq⟩ := Exec.bind_eq_ok.mp hreturns
      cases heq
      exact (hstart.trans hadds).trans rfl
  | ended =>
      obtain ⟨heap, _, heq⟩ := Exec.bind_eq_ok.mp hreturns
      cases heq
      exact (hstart.trans hadds).trans rfl

/-! ## Writing a line -/

def SystemCall.isWrite : SystemCall → Bool
  | .write _ _ _ => true
  | _ => false

/-- What a round of writing does: it ends when nothing is left, or writes the rest
of the line and goes on unless that fails. -/
theorem writeLineRound_eq_ok {line : Option Ptr} {s : Process (Logged σ) × Nat}
    {round : Round (Process (Logged σ) × Nat) (Process (Logged σ) × Bool)}
    (hround : writeLineRound os.logged fuel fd line s = .ok round) :
    (s.2 = 0 ∧ round = .leave (s.1, true)) ∨
      ∃ bytes state result count, s.2 ≠ 0 ∧
        remainingBytes s.1.heap line s.2 = .ok bytes ∧
        retryOnEintr (logCall (.write fd bytes) fun state => os.write state fd bytes) fuel
          s.1.state = .ok (state, result) ∧
        Adds s.1.state state (List.replicate count (.write fd bytes .interrupted) ++
          [.write fd bytes (result.elim .failed .done)]) ∧
        round = match result with
          | none => .leave (⟨state, s.1.heap⟩, false)
          | some written => .again (⟨state, s.1.heap⟩, u64 (s.2 - written)) := by
  unfold writeLineRound at hround
  split at hround
  next hzero =>
    cases hround
    exact Or.inl ⟨hzero, rfl⟩
  next hmore =>
    obtain ⟨bytes, hbytes, hround⟩ := Exec.bind_eq_ok.mp hround
    obtain ⟨⟨state, result⟩, hwrite, hround⟩ := Exec.bind_eq_ok.mp hround
    have hwrite : retryOnEintr (logCall (.write fd bytes) fun state => os.write state fd bytes) fuel
        s.1.state = .ok (state, result) := hwrite
    obtain ⟨count, hadds⟩ := retryOnEintr_adds hwrite
    refine Or.inr ⟨bytes, state, result, count, hmore, hbytes, hwrite, hadds, ?_⟩
    cases result with
    | none => exact (Except.ok.inj hround).symm
    | some written => exact (Except.ok.inj hround).symm

/-- Writing a line starts writing, and stops it unless a write failed. -/
theorem writeLine_adds {proc proc' : Process (Logged σ)} {line : Option Ptr} {ok : Bool}
    (hreturns : aesdsocketWriteLine os.logged fuel fd proc line = .ok (proc', ok)) :
    ∃ calls failed, CallsOf SystemCall.isWrite calls failed ∧
      Adds proc.state proc'.state
        ([.startWriting] ++ calls ++ (if failed then [] else [.stopWriting])) ∧
      ok = !failed := by
  obtain ⟨cells, _, hreturns⟩ := Exec.bind_eq_ok.mp hreturns
  obtain ⟨length, _, hreturns⟩ := Exec.bind_eq_ok.mp hreturns
  obtain ⟨⟨last, done⟩, hloop, hreturns⟩ := Exec.bind_eq_ok.mp hreturns
  obtain ⟨calls, hadds, hcalls⟩ : ∃ calls,
      Adds (os.logged.startWriting proc.state) last.state calls ∧
        CallsOf SystemCall.isWrite calls (!done) := by
    refine loop.sound
      (fun t => ∃ calls, Adds (os.logged.startWriting proc.state) t.1.state calls ∧
        CallsOf SystemCall.isWrite calls false)
      (fun r => ∃ calls, Adds (os.logged.startWriting proc.state) r.1.state calls ∧
        CallsOf SystemCall.isWrite calls (!r.2)) ?_ ?_ ⟨[], .refl _, .nil⟩ hloop
    · rintro t next ⟨calls, hadds, hcalls⟩ hround
      rcases writeLineRound_eq_ok hround with
        ⟨_, heq⟩ | ⟨bytes, state, result, count, _, _, _, hmore, heq⟩
      · cases heq
      · cases result with
        | none => cases heq
        | some written =>
            cases heq
            exact ⟨_, hadds.trans hmore, hcalls.append
              (.retry (.write fd bytes) (fun _ => rfl) (fun _ => rfl) rfl rfl count (some written))⟩
    · rintro t r ⟨calls, hadds, hcalls⟩ hround
      rcases writeLineRound_eq_ok hround with
        ⟨_, heq⟩ | ⟨bytes, state, result, count, _, _, _, hmore, heq⟩
      · cases heq
        exact ⟨calls, hadds, hcalls⟩
      · cases result with
        | none =>
            cases heq
            exact ⟨_, hadds.trans hmore, hcalls.append
              (.retry (.write fd bytes) (fun _ => rfl) (fun _ => rfl) rfl rfl count none)⟩
        | some written => cases heq
  have hstart : Adds proc.state (os.logged.startWriting proc.state) [.startWriting] := rfl
  refine ⟨calls, !done, hcalls, ?_⟩
  cases done with
  | true =>
      cases hreturns
      exact ⟨(hstart.trans hadds).trans rfl, rfl⟩
  | false =>
      cases hreturns
      exact ⟨(hstart.trans hadds).trans (.refl _), rfl⟩

/-! ## Sending a line -/

/-- What a round of sending does: it ends when nothing is left or the program is to
terminate, or sends the rest of the line and goes on unless that fails. -/
theorem sendLineRound_eq_ok {line : Option Ptr} {s : Process (Logged σ) × Nat}
    {round : Round (Process (Logged σ) × Nat) (Process (Logged σ) × Bool)}
    (hround : sendLineRound os.logged fuel fd line s = .ok round) :
    (s.2 = 0 ∧ round = .leave (s.1, true)) ∨
      (s.2 ≠ 0 ∧ (os.logged.terminationFlag s.1.state).2 = true ∧
        round = .leave (⟨(os.logged.terminationFlag s.1.state).1, s.1.heap⟩, true)) ∨
      ∃ bytes state result count, s.2 ≠ 0 ∧
        (os.logged.terminationFlag s.1.state).2 = false ∧
        remainingBytes s.1.heap line s.2 = .ok bytes ∧
        retryOnEintr (logCall (.send bytes) fun state => os.send state fd bytes) fuel
          (os.logged.terminationFlag s.1.state).1 = .ok (state, result) ∧
        Adds s.1.state state (List.replicate count (.send bytes .interrupted) ++
          [.send bytes (result.elim .failed .done)]) ∧
        round = match result with
          | none => .leave (⟨state, s.1.heap⟩, false)
          | some sent => .again (⟨state, s.1.heap⟩, u64 (s.2 - sent)) := by
  unfold sendLineRound at hround
  split at hround
  next hzero =>
    cases hround
    exact Or.inl ⟨hzero, rfl⟩
  next hmore =>
    cases hflag : (os.logged.terminationFlag s.1.state).2 with
    | true =>
        simp only [hflag, if_true] at hround
        exact Or.inr (Or.inl ⟨hmore, rfl, (Except.ok.inj hround).symm⟩)
    | false =>
        simp only [hflag, Bool.false_eq_true, if_false] at hround
        obtain ⟨bytes, hbytes, hround⟩ := Exec.bind_eq_ok.mp hround
        obtain ⟨⟨state, result⟩, hsend, hround⟩ := Exec.bind_eq_ok.mp hround
        have hsend : retryOnEintr (logCall (.send bytes) fun state => os.send state fd bytes) fuel
            (os.logged.terminationFlag s.1.state).1 = .ok (state, result) := hsend
        obtain ⟨count, hadds⟩ := retryOnEintr_adds hsend
        refine Or.inr (Or.inr ⟨bytes, state, result, count, hmore, rfl, hbytes, hsend, hadds, ?_⟩)
        cases result with
        | none => exact (Except.ok.inj hround).symm
        | some sent => exact (Except.ok.inj hround).symm

/-- Sending a line leaves the memory alone. -/
theorem sendLine_heap {proc proc' : Process (Logged σ)} {line : Option Ptr} {ok : Bool}
    (hreturns : aesdsocketSendLine os.logged fuel fd proc line = .ok (proc', ok)) :
    proc'.heap = proc.heap := by
  obtain ⟨cells, _, hreturns⟩ := Exec.bind_eq_ok.mp hreturns
  obtain ⟨length, _, hloop⟩ := Exec.bind_eq_ok.mp hreturns
  refine loop.sound (fun s => s.1.heap = proc.heap) (fun r => r.1.heap = proc.heap) ?_ ?_ rfl hloop
  · intro s next hs hround
    rcases sendLineRound_eq_ok hround with
      ⟨_, heq⟩ | ⟨_, _, heq⟩ | ⟨_, _, result, _, _, _, _, _, _, heq⟩
    · cases heq
    · cases heq
    · cases result with
      | none => cases heq
      | some sent =>
          cases heq
          exact hs
  · intro s last hs hround
    rcases sendLineRound_eq_ok hround with
      ⟨_, heq⟩ | ⟨_, _, heq⟩ | ⟨_, _, result, _, _, _, _, _, _, heq⟩
    · cases heq
      exact hs
    · cases heq
      exact hs
    · cases result with
      | none =>
          cases heq
          exact hs
      | some sent => cases heq

end

end Aesd
