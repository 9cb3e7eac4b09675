import Aesd.Server.FileSessions
import Aesd.Server.Timestamp

/-!
# Clients and timestamps

The main loop takes timestamps between the connections that it accepts, and they
go into the same file. Whatever the order is, the file consists of the lines of
the clients and those of the timestamps, and a client gets an answer that was
made from all of them.
-/

namespace Aesd

open CSem LineStream Service

namespace RegularFile

variable {τ : Type} {choices : Choices} {calendar : Calendar τ} {lines : List (List UInt8)}
  {proc : Process (Machine RegularFile)}

/-- What comes next: a client, or a timestamp at a time that the clock may have
failed to give. -/
inductive Visit
  | client (query : Query)
  | timestamp (now : Option Int)

/-- What comes of it. -/
inductive Outcome
  | answered (answer : Answer)
  | stamped (ok : Bool)
  deriving DecidableEq

/-- A timestamp adds the lines of its text. -/
def fileStamp (lines : List (List UInt8)) (line : List UInt8) : List (List UInt8) × Bool :=
  (lines ++ LineStream.lines newline line, decide (line ≠ []))

/-- A timestamp that does not go too far. -/
def Visit.Fits (calendar : Calendar τ) : Visit → Prop
  | .client _ => True
  | .timestamp now => ¬ calendar.Overruns now

/-- One client is served, or one timestamp is taken, with this outcome. -/
def Visited (choices : Choices) (socketFd : Nat) (calendar : Calendar τ)
    (proc : Process (Machine RegularFile)) (visit : Visit) (outcome : Outcome)
    (proc' : Process (Machine RegularFile)) : Prop :=
  match visit, outcome with
  | .client query, .answered answer => Answers ops choices socketFd proc query answer proc'
  | .timestamp now, .stamped ok =>
      Settles (fun fuel => aesdsocketTakeTimestamp (Machine.os ops choices) calendar now fuel proc)
        (.ok (proc', ok))
  | _, _ => False

/-- The lines of a timestamp can be read back. -/
theorem plain_lines_stamp {text : List UInt8} (hnul : 0 ∉ text)
    (hfits : text.length + 1 < buffsize) :
    Plain (LineStream.lines newline (text ++ [newline])) ∧
      (LineStream.lines newline (text ++ [newline])).flatten = text ++ [newline] := by
  have hflatten := lines_flatten_append_rest newline (text ++ [newline])
  have hrest : rest newline (text ++ [newline]) = [] :=
    congrArg Prod.snd (split_append_line text isLine_singleton)
  rw [hrest, List.append_nil] at hflatten
  refine ⟨fun line hmem => ?_, hflatten⟩
  have hpart : line.Sublist (text ++ [newline]) :=
    hflatten ▸ List.sublist_flatten_of_mem hmem
  have hlength := hpart.length_le
  rw [List.length_append, List.length_singleton] at hlength
  exact ⟨isLine_of_mem_lines hmem, fun hzero => notMem_line hnul (hpart.subset hzero), by omega⟩

theorem plain_append {lines others : List (List UInt8)} (h : Plain lines)
    (hothers : Plain others) : Plain (lines ++ others) := by
  intro line hmem
  rcases List.mem_append.mp hmem with hmem | hmem
  · exact h line hmem
  · exact hothers line hmem

/-- A line that the file takes is written from the local array. -/
theorem writeTimestamp_settles {line : List UInt8} (hnul : 0 ∉ line) (hne : line ≠ [])
    (back : List UInt8) (fd : Nat) (proc : Process (Machine RegularFile)) :
    ∃ proc', Settles (fun fuel =>
        writeTimestamp (Machine.os ops choices) fuel fd proc (line ++ 0 :: back))
        (.ok (proc', true)) ∧
      proc'.state.file.content = proc.state.file.content ++ line := by
  obtain ⟨heap, p, halloc, _, hstring, _⟩ := alloc_string proc.heap hnul back
  obtain ⟨file, hwrite, hcontent⟩ : ∃ file : RegularFile,
      ops.write proc.state.file line = .ok (file, .done line.length) ∧
        file.content = proc.state.file.content ++ line := ⟨_, rfl, rfl⟩
  have hwritten := @writeLine_settles _ p line ops choices ⟨proc.state, heap⟩ hstring hne file
    hwrite fd
  obtain ⟨released, hfree, _⟩ := Heap.free_spec hstring.isSome
  refine ⟨⟨{ proc.state with file := file }, released⟩, ?_, hcontent⟩
  unfold writeTimestamp
  simp only [halloc]
  refine hwritten.bind ?_
  simp only [hfree, Exec.ok_bind]
  exact Settles.const _

/-- A timestamp adds the lines of its text to the file. -/
theorem Contains.stamped (h : Contains lines proc) {now : Option Int}
    (hfits : ¬ calendar.Overruns now) :
    ∃ proc', Settles (fun fuel =>
        aesdsocketTakeTimestamp (Machine.os ops choices) calendar now fuel proc)
        (.ok (proc', (fileStamp lines (calendar.line now)).2)) ∧
      Contains (fileStamp lines (calendar.line now)).1 proc' := by
  obtain ⟨hplain, hcontent⟩ := h
  have hopen : (Machine.os ops choices).openFile proc.state true =
    .ok ({ proc.state with file := ops.openFile proc.state.file }, .done 0) := rfl
  simp only [takeTimestamp_eq hopen]
  rcases calendar.buffer_cases now with ⟨hbuffer, hline, _⟩ | ⟨_, hover⟩ |
    ⟨text, back, hbuffer, hline, hnul, hshort, _⟩
  · simp only [hbuffer, Exec.ok_bind, Option.elim_none]
    rw [hline]
    have hsame : (fileStamp lines []).1 = lines := List.append_nil _
    exact ⟨_, Settles.const _, hsame.symm ▸ hplain, hsame.symm ▸ hcontent⟩
  · exact absurd hover hfits
  · simp only [hbuffer, Exec.ok_bind, Option.elim_some]
    obtain ⟨hnew, hflatten⟩ := plain_lines_stamp hnul hshort
    have hne : text ++ [newline] ≠ [] := by simp
    obtain ⟨proc', hwritten, hfile⟩ := @writeTimestamp_settles choices _ (notMem_line hnul) hne
      back 0 ⟨{ proc.state with file := ops.openFile proc.state.file }, proc.heap⟩
    rw [hline, fileStamp, decide_eq_true hne]
    refine ⟨proc', hwritten.bind (Settles.const _), plain_append hplain hnew, ?_⟩
    rw [hfile, List.flatten_append, hflatten]
    exact congrArg (· ++ (text ++ [newline])) hcontent

theorem Visited.unique {socketFd : Nat} {proc' proc'' : Process (Machine RegularFile)}
    {visit : Visit} {outcome outcome' : Outcome}
    (h : Visited choices socketFd calendar proc visit outcome proc')
    (h' : Visited choices socketFd calendar proc visit outcome' proc'') :
    outcome = outcome' ∧ proc' = proc'' := by
  cases visit with
  | client query =>
      cases outcome with
      | stamped ok => exact absurd h id
      | answered answer =>
          cases outcome' with
          | stamped ok => exact absurd h' id
          | answered answer' =>
              obtain ⟨hanswer, hproc⟩ := Answers.unique h h'
              exact ⟨congrArg Outcome.answered hanswer, hproc⟩
  | timestamp now =>
      cases outcome with
      | answered answer => exact absurd h id
      | stamped ok =>
          cases outcome' with
          | answered answer => exact absurd h' id
          | stamped ok' =>
              obtain ⟨hproc, hok⟩ := Prod.mk.inj (Except.ok.inj (Settles.unique h h'))
              exact ⟨congrArg Outcome.stamped hok, hproc⟩

end RegularFile

end Aesd
