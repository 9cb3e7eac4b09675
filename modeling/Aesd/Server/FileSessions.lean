import Aesd.Server.DeviceSessions
import Aesd.Server.RegularFile

/-!
# Sessions on a regular file

With a regular file behind it, the server appends the lines and answers with the
file, but of every block that it reads it sends only what comes before the first
newline and the newline itself.
-/

namespace Aesd

open CSem LineStream Service

/-- Up to its first newline a block is used. -/
theorem Log.consumed_append {front : List UInt8} (hfront : newline ∉ front) (back : List UInt8) :
    consumed (front ++ newline :: back) = front ++ [newline] := by
  have hidx : (front ++ newline :: back).findIdx (· == newline) = front.length := by
    have hnone : front.findIdx (· == newline) = front.length := by
      rw [List.findIdx_eq_length]
      intro byte hbyte
      exact beq_eq_false_iff_ne.mpr fun heq => hfront (heq ▸ hbyte)
    simp [List.findIdx_append, List.findIdx_cons, hnone]
  rw [consumed, hidx, List.take_length_add_append]
  rfl

namespace RegularFile

/-- What is sent of the bytes that are left: of every block its first line. -/
def relayed (content : List UInt8) : List UInt8 :=
  ((List.range ((content.length + (buffsize - 1)) / buffsize)).map fun index =>
    Log.consumed (block content index)).flatten

theorem relayed_nil : relayed [] = [] := by decide

/-- One block more. -/
theorem relayed_eq_append {content : List UInt8} (hne : content ≠ []) :
    relayed content =
      Log.consumed (content.take buffsize) ++ relayed (content.drop buffsize) := by
  have hlength := List.length_pos_of_ne_nil hne
  have hcount : (content.length + (buffsize - 1)) / buffsize =
      ((content.drop buffsize).length + (buffsize - 1)) / buffsize + 1 := by
    rw [List.length_drop]
    unfold buffsize
    omega
  have hblocks : ∀ index, block content (index + 1) = block (content.drop buffsize) index := by
    intro index
    rw [block, block, List.drop_drop, Nat.mul_succ, Nat.add_comm]
  unfold relayed
  rw [hcount, List.range_succ_eq_map, List.map_cons, List.flatten_cons, List.map_map]
  congr 2
  exact List.map_congr_left fun index _ => congrArg Log.consumed (hblocks index)

/-- Every block that begins inside the file has a newline. -/
def Lined (content : List UInt8) : Prop :=
  ∀ pos, pos < content.length → newline ∈ (content.drop pos).take buffsize

/-- The file with lines that are shorter than a block. -/
theorem lined_of_plain {lines : List (List UInt8)} (h : Plain lines) : Lined lines.flatten := by
  induction lines with
  | nil => exact fun pos hpos => absurd hpos (Nat.not_lt_zero pos)
  | cons line lines ih =>
      obtain ⟨⟨hline, _, hshort⟩, hothers⟩ := List.forall_mem_cons.mp h
      intro pos hpos
      rw [List.flatten_cons] at hpos ⊢
      rcases Nat.lt_or_ge pos line.length with hlt | hge
      · obtain ⟨body, hbody, _⟩ := hline.drop hlt
        have hlength := congrArg List.length hbody
        rw [List.length_drop, List.length_append, List.length_singleton] at hlength
        rw [List.drop_append_of_le_length (Nat.le_of_lt hlt), hbody, List.take_append,
          List.take_of_length_le (by rw [List.length_append, List.length_singleton]; omega)]
        exact List.mem_append_left _ (List.mem_append_right _ (List.mem_singleton_self _))
      · rw [List.drop_append, List.drop_eq_nil_of_le hge, List.nil_append]
        apply ih hothers
        rw [List.length_append] at hpos
        omega

/-- From any position of such a file the relay runs to the end. -/
theorem relays_of_lined {file : RegularFile} (hlined : Lined file.content)
    (hnul : 0 ∉ file.content) : ∃ file', Relays ops file (relayed file.remaining) file' ∧
      file'.content = file.content := by
  induction hleft : file.remaining.length using Nat.strongRecOn generalizing file with
  | ind left ih =>
      have hclear : 0 ∉ file.remaining := fun hzero => hnul (List.mem_of_mem_drop hzero)
      by_cases hnil : file.remaining = []
      · refine ⟨file.advance, ?_, rfl⟩
        rw [hnil, relayed_nil]
        exact .last (.atEnd (by rw [read_eq, hnil, List.take_nil]))
      · have hinside : file.fPos < file.content.length := by
          have hpos := List.length_pos_of_ne_nil hnil
          rw [remaining, List.length_drop] at hpos
          omega
        obtain ⟨front, back, hblock, hfront⟩ :=
          List.eq_append_cons_of_mem (hlined file.fPos hinside)
        have hline := lineOf_of_mem hclear hblock hfront
        have hless : file.advance.remaining.length < left := by
          have hpos := List.length_pos_of_ne_nil hnil
          rw [remaining_advance, List.length_drop, hleft]
          exact Nat.sub_lt (hleft ▸ hpos) (by decide)
        obtain ⟨file', hrelays, hcontent⟩ :=
          @ih file.advance.remaining.length hless file.advance hlined hnul rfl
        refine ⟨file', ?_, hcontent⟩
        rw [relayed_eq_append hnil, ← remaining_advance]
        have hused : Log.consumed (file.remaining.take buffsize) = front ++ [newline] := by
          rw [remaining, hblock, Log.consumed_append hfront]
        rw [hused]
        exact .more hline hrelays

/-- What the server over a regular file does: the lines after a request, and the
answer to it. The file has no seek command. -/
def fileEcho (lines : List (List UInt8)) (query : Query) : List (List UInt8) × Answer :=
  if seektoCommand <+: query.text then
    match seektoFields query.text with
    | none => (lines, ⟨true, relayed lines.flatten⟩)
    | some _ => (lines, ⟨false, []⟩)
  else (lines ++ [query.text], ⟨true, relayed (lines ++ [query.text]).flatten⟩)

/-- The file consists of these lines. -/
def Contains (lines : List (List UInt8)) (proc : Process (Machine RegularFile)) : Prop :=
  Plain lines ∧ proc.state.file.content = lines.flatten

theorem notMem_flatten {lines : List (List UInt8)} (h : Plain lines) : 0 ∉ lines.flatten := by
  intro hzero
  obtain ⟨line, hline, hzero⟩ := List.mem_flatten.mp hzero
  exact (h line hline).2.1 hzero

theorem relays_flatten {lines : List (List UInt8)} (h : Plain lines) :
    ∃ file', Relays ops ⟨lines.flatten, 0⟩ (relayed lines.flatten) file' ∧
      file'.content = lines.flatten :=
  @relays_of_lined ⟨lines.flatten, 0⟩ (lined_of_plain h) (notMem_flatten h)

variable {choices : Choices} {lines : List (List UInt8)} {proc : Process (Machine RegularFile)}

/-- One client is answered as the echo says. -/
theorem Contains.answers (h : Contains lines proc) (socketFd : Nat) (query : Query) :
    ∃ proc', Answers ops choices socketFd proc query (fileEcho lines query).2 proc' ∧
      Contains (fileEcho lines query).1 proc' := by
  obtain ⟨hplain, hcontent⟩ := h
  have hopen : ops.openFile proc.state.file = ⟨lines.flatten, 0⟩ :=
    congrArg (RegularFile.mk · 0) hcontent
  unfold fileEcho
  by_cases hstarts : seektoCommand <+: query.text
  · have htakes := fun file result => @takes_command RegularFile ops choices
      ⟨lines.flatten, 0⟩ file query.text hstarts query.fits result
    rw [if_pos hstarts]
    cases hfields : seektoFields query.text with
    | none =>
        rw [hfields, ← hopen] at htakes
        obtain ⟨file', hrelays, hcontent'⟩ := relays_flatten hplain
        obtain ⟨proc', hanswers, hfile⟩ := answers_of_takes socketFd
          (htakes _ (.done ()) (congrArg (fun file => Except.ok (file, _)) hopen)) hrelays
        exact ⟨proc', hanswers, hplain, hfile ▸ hcontent'⟩
    | some fields =>
        rw [hfields, ← hopen] at htakes
        obtain ⟨proc', hanswers, hfile⟩ :=
          answers_of_refused proc socketFd (htakes _ .failed rfl)
        refine ⟨proc', hanswers, hplain, ?_⟩
        rw [hfile, hopen]
  · rw [if_neg hstarts]
    have hwrite : ops.write (ops.openFile proc.state.file) query.text =
        .ok (⟨lines.flatten ++ query.text, (lines.flatten ++ query.text).length⟩,
          .done query.text.length) := by
      rw [hopen]
      rfl
    have hplain' := hplain.append query
    obtain ⟨file', hrelays, hcontent'⟩ := relays_flatten hplain'
    have hflatten : (lines ++ [query.text]).flatten = lines.flatten ++ query.text := by simp
    rw [hflatten] at hrelays hcontent' ⊢
    obtain ⟨proc', hanswers, hfile⟩ := answers_of_takes socketFd
      (takes_line hstarts query.isLine.ne_nil hwrite) hrelays
    exact ⟨proc', hanswers, hplain', by rw [hfile, hcontent', hflatten]⟩

/-- However many clients come one after another, the file grows by their lines,
and each is answered with the first line of every block of the file as it is
then. -/
theorem sessions_fileEcho (choices : Choices) (socketFd : Nat)
    {proc : Process (Machine RegularFile)} (hempty : proc.state.file.content = [])
    (queries : List Query) :
    (∃ proc', Converses (Answers ops choices socketFd) proc queries
        (serveAll fileEcho [] queries).2 proc' ∧
        Contains (serveAll fileEcho [] queries).1 proc') ∧
      ∀ answers proc', Converses (Answers ops choices socketFd) proc queries answers proc' →
        answers = (serveAll fileEcho [] queries).2 := by
  have hserved : ∃ proc', Converses (Answers ops choices socketFd) proc queries
      (serveAll fileEcho [] queries).2 proc' ∧
      Contains (serveAll fileEcho [] queries).1 proc' :=
    Converses.of_refines (fun _ => True) (fun _ _ query h _ => h.answers socketFd query)
      ⟨fun _ hmem => absurd hmem List.not_mem_nil, hempty⟩ fun _ _ => trivial
  refine ⟨hserved, fun answers proc' hother => ?_⟩
  obtain ⟨_, hconverses, _⟩ := hserved
  exact (hother.unique (fun _ _ _ _ _ _ h h' => h.unique h') hconverses).1

-- the second client does not get its own line back
example : (serveAll fileEcho [] [CharFile.lineQuery, CharFile.lineQuery]).2 =
    [⟨true, [97, 10]⟩, ⟨true, [97, 10]⟩] := by
  decide +kernel

theorem sessions_fileEcho_twice :
    let step := Answers ops ⟨fun _ => 1, fun _ => true⟩ 4
    (∃ proc', Converses step (fresh []) [CharFile.lineQuery, CharFile.lineQuery]
        (serveAll fileEcho [] [CharFile.lineQuery, CharFile.lineQuery]).2 proc' ∧
        Contains (serveAll fileEcho [] [CharFile.lineQuery, CharFile.lineQuery]).1 proc') ∧
      ∀ answers proc', Converses step (fresh []) [CharFile.lineQuery, CharFile.lineQuery] answers
        proc' → answers = (serveAll fileEcho [] [CharFile.lineQuery, CharFile.lineQuery]).2 :=
  sessions_fileEcho _ 4 rfl _

end RegularFile

end Aesd
