import Aesd.Driver.Runs

/-!
# The read law

Reading on from any position, with any positive counts, delivers the contents of
the device from there on, each call inside one piece, and then reports the end.
-/

namespace Aesd

open CSem Transition

/-- Reads one after another, each from where the one before left the position. -/
def readCalls (k : Kernel) : Int → List Nat → Exec (List Reply)
  | _, [] => .ok []
  | fPos, count :: counts => do
      let reply ← aesdRead k ⟨true, count⟩ count fPos
      let replies ← readCalls k reply.fPos counts
      .ok (reply :: replies)

/-- Every call moves the position by its return value, which counts the bytes
it delivered. -/
def Advances : Int → List Reply → Prop
  | _, [] => True
  | fPos, reply :: replies =>
      reply.fPos = fPos + reply.retval ∧ reply.retval = reply.delivered.length ∧
        Advances reply.fPos replies

/-- The bytes of a call all come from one piece, at the position where the call
started. -/
def WithinOne (segments : List (List UInt8)) (reply : Reply) : Prop :=
  ∃ index offset, ∃ hindex : index < segments.length,
    reply.fPos - reply.retval = Segments.position (segments.map List.length) index offset ∧
      offset + reply.delivered.length ≤ segments[index].length ∧
      reply.delivered = (segments[index].drop offset).take reply.delivered.length

/-- What is read before the end lies inside one entry. -/
theorem withinOne_readAt {log : Log} {fPos : Nat} (hlt : fPos < log.contents.length) (count : Nat)
    (msgCopy : Option (List UInt8)) :
    WithinOne log.segments ⟨(log.readAt count fPos).length,
      ((fPos + (log.readAt count fPos).length : Nat) : Int), log.readAt count fPos, msgCopy⟩ := by
  cases hlocate : log.locate fPos with
  | none => exact absurd (Log.locate_eq_none_iff.mp hlocate) (Nat.not_le.mpr hlt)
  | some found =>
      obtain ⟨index, offset⟩ := found
      obtain ⟨_, _, hposition⟩ := Segments.locate_eq_some_iff.mp hlocate
      obtain ⟨hindex, hinside⟩ := Log.lt_of_locate hlocate
      have hbytes := Log.readAt_of_some hlocate count
      rw [List.getD_eq_getElem?_getD, List.getElem?_eq_getElem hindex,
        Option.getD_some] at hbytes hinside
      refine ⟨index, offset, hindex, ?_, ?_, ?_⟩
      · dsimp only
        rw [hposition]
        omega
      · dsimp only
        rw [hbytes, List.length_take, List.length_drop]
        omega
      · dsimp only
        conv_lhs => rw [hbytes]
        rw [hbytes, List.length_take, List.take_eq_take_iff, List.length_drop]
        omega

namespace Kernel.Holds

variable {k : Kernel} {es : List BufferEntry} {log : Log}

/-- A read that meets no failure. -/
theorem aesdRead_ok (h : k.Holds es log) (hfit : log.contents.length < 2 ^ 63) (count : Nat)
    {fPos : Nat} (hlt : fPos < 2 ^ 63) :
    ∃ msgCopy, aesdRead k ⟨true, count⟩ count fPos =
      .ok ⟨(log.readAt count fPos).length, ((fPos + (log.readAt count fPos).length : Nat) : Int),
        log.readAt count fPos, msgCopy⟩ := by
  refine ⟨(log.locate fPos).map fun _ => log.readAt count fPos, ?_⟩
  rw [h.aesdRead_eq hfit rfl count hlt, if_neg (Nat.not_lt.mpr (Log.length_readAt_le log count fPos))]

/-- Reads from a position up to the end of the contents. -/
theorem readCalls_spec (h : k.Holds es log) (hfit : log.contents.length < 2 ^ 63) {counts : Nat → Nat}
    (hcounts : ∀ i, 0 < counts i) {fPos : Nat} (hlt : fPos < 2 ^ 63) :
    ∃ replies last,
      readCalls k fPos ((List.range (replies.length + 1)).map counts) =
        .ok (replies ++ [last]) ∧
      (∀ reply ∈ replies, 0 < reply.retval) ∧ last.retval = 0 ∧
      ((replies ++ [last]).map Reply.delivered).flatten = log.contents.drop fPos ∧
      last.fPos = (max fPos log.contents.length : Nat) ∧
      Advances fPos (replies ++ [last]) ∧
      ∀ reply ∈ replies, WithinOne log.segments reply := by
  generalize hremaining : log.contents.length - fPos = remaining
  induction remaining using Nat.strongRecOn generalizing counts fPos with
  | ind remaining ih =>
      obtain ⟨msgCopy, hread⟩ := h.aesdRead_ok hfit (counts 0) hlt
      have hdrop := log.readAt_append_drop (counts 0) fPos
      rcases Nat.lt_or_ge fPos log.contents.length with hbefore | hend
      · have hpos := Log.length_readAt_pos (hcounts 0) hbefore
        have hnext : fPos + (log.readAt (counts 0) fPos).length ≤ log.contents.length := by
          have := congrArg List.length hdrop
          simp only [List.length_append, List.length_drop] at this
          omega
        have hwithin := withinOne_readAt hbefore (counts 0) msgCopy
        generalize log.readAt (counts 0) fPos = bytes at hread hdrop hpos hnext hwithin
        obtain ⟨replies, last, hcalls, hretvals, hlast, hbytes, hfPos, hadvances, hone⟩ :=
          ih (log.contents.length - (fPos + bytes.length)) (by omega)
            (fun i => hcounts (i + 1)) (show fPos + bytes.length < 2 ^ 63 by omega) rfl
        refine ⟨⟨bytes.length, ((fPos + bytes.length : Nat) : Int), bytes, msgCopy⟩ :: replies, last,
          ?_, ?_, hlast, ?_, ?_, ?_, ?_⟩
        · rw [List.length_cons, List.range_succ_eq_map, List.map_cons, List.map_map, readCalls,
            hread, Exec.ok_bind]
          dsimp only
          have hshift : counts ∘ Nat.succ = fun i => counts (i + 1) := rfl
          rw [hshift, hcalls, Exec.ok_bind]
          rfl
        · intro reply hmem
          rcases List.mem_cons.mp hmem with rfl | hmem
          · exact Int.natCast_pos.mpr hpos
          · exact hretvals reply hmem
        · rw [List.cons_append, List.map_cons, List.flatten_cons, hbytes]
          exact hdrop
        · rw [hfPos]
          omega
        · exact ⟨Int.natCast_add _ _, rfl, hadvances⟩
        · intro reply hmem
          rcases List.mem_cons.mp hmem with rfl | hmem
          · exact hwithin
          · exact hone reply hmem
      · have hnil : log.readAt (counts 0) fPos = [] :=
          Log.readAt_of_none (Log.locate_eq_none_iff.mpr hend) _
        rw [hnil] at hread
        refine ⟨[], ⟨0, fPos, [], msgCopy⟩, ?_, by simp, rfl, ?_, ?_, ?_, by simp⟩
        · simp only [List.length_nil, Nat.zero_add, List.range_one, List.map_cons, List.map_nil,
            readCalls, hread, Exec.ok_bind, List.nil_append, Nat.add_zero]
          rfl
        · simp [List.drop_eq_nil_of_le hend]
        · dsimp only
          omega
        · exact ⟨(Int.add_zero _).symm, rfl, trivial⟩

end Kernel.Holds

namespace Driver

/-- The read law, for every state reached without a `krealloc` failing on
pending bytes. -/
theorem read_law (seek : FixedSizeLlseek) {d : Driver} (hreach : SafelyReachable seek d) :
    ∃ committed pending, d.kernel.committedBytes = .ok committed ∧
      d.kernel.pendingBytes = .ok pending ∧
      (committed.flatten ++ pending).length < 2 ^ 63 ∧
      ∀ (fPos : Nat) (counts : Nat → Nat), fPos < 2 ^ 63 → (∀ i, 0 < counts i) →
        ∃ replies last,
          readCalls d.kernel fPos ((List.range (replies.length + 1)).map counts) =
            .ok (replies ++ [last]) ∧
          (∀ reply ∈ replies, 0 < reply.retval) ∧ last.retval = 0 ∧
          ((replies ++ [last]).map Reply.delivered).flatten =
            (committed.flatten ++ pending).drop fPos ∧
          last.fPos = (max fPos (committed.flatten ++ pending).length : Nat) ∧
          Advances fPos (replies ++ [last]) ∧
          ∀ reply ∈ replies, WithinOne (committed ++ [pending]) reply := by
  obtain ⟨events, hrun⟩ := hreach
  obtain ⟨es, h⟩ := holds_of_safeRun hrun
  have hfit := h.length_contents_lt (total_of_run (run_of_safeRun hrun))
  refine ⟨_, _, h.committedBytes_eq, h.pendingBytes_eq, hfit, ?_⟩
  intro fPos counts hlt hcounts
  exact h.readCalls_spec hfit hcounts hlt

/-- Reading "a\n" back one byte at a time. -/
theorem read_law_oneLine : ∃ replies last,
    readCalls oneLine.kernel 0 ((List.range (replies.length + 1)).map fun _ => 1) =
      .ok (replies ++ [last]) ∧
    ((replies ++ [last]).map Reply.delivered).flatten = [97, 10] ∧ last.fPos = 2 := by
  obtain ⟨committed, pending, hcommitted, hpending, _, hreads⟩ :=
    read_law .reference (oneLine_safelyReachable .reference)
  have hline : oneLine.kernel.committedBytes = .ok [[97, 10]] := by decide +kernel
  have hrest : oneLine.kernel.pendingBytes = .ok [] := by decide +kernel
  cases hcommitted.symm.trans hline
  cases hpending.symm.trans hrest
  obtain ⟨replies, last, hcalls, _, _, hbytes, hfPos, _⟩ :=
    hreads 0 (fun _ => 1) (by decide) (fun _ => Nat.one_pos)
  exact ⟨replies, last, hcalls, hbytes, hfPos⟩

end Driver

end Aesd
