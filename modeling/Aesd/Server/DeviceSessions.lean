import Aesd.Server.Sessions
import Mathlib.Data.List.GetD

/-!
# Sessions on the device

With the device behind it, the server is an echo of the last ten lines. A seek
command is answered with what follows the byte that it names; it is refused when
it names none, and ignored when a separator is missing.
-/

namespace Aesd

open CSem LineStream Service

/-- The lines that the device still has. -/
def window (lines : List (List UInt8)) : List (List UInt8) := lines.rtake 10

/-- What the server over the device is for: the lines after a request, and the
answer to it. -/
def echo (lines : List (List UInt8)) (query : Query) : List (List UInt8) × Answer :=
  if seektoCommand <+: query.text then
    match seektoFields query.text with
    | none => (lines, ⟨true, (window lines).flatten⟩)
    | some fields =>
        let seekto := toSeekto fields
        -- the driver takes the index modulo 256
        let index := seekto.writeCmd.toNat % 256
        let offset := seekto.writeCmdOffset.toNat
        if offset < ((window lines).getD index []).length then
          (lines, ⟨true, ((window lines).getD index []).drop offset ++
            ((window lines).drop (index + 1)).flatten⟩)
        else (lines, ⟨false, []⟩)
  else (lines ++ [query.text], ⟨true, (window (lines ++ [query.text])).flatten⟩)

/-- Lines that the server can read back. -/
def Plain (lines : List (List UInt8)) : Prop :=
  ∀ line ∈ lines, IsLine newline line ∧ 0 ∉ line ∧ line.length < buffsize

theorem Plain.append {lines : List (List UInt8)} (h : Plain lines) (query : Query) :
    Plain (lines ++ [query.text]) := by
  intro line hmem
  rcases List.mem_append.mp hmem with hold | hnew
  · exact h line hold
  · rw [List.mem_singleton.mp hnew]
    exact ⟨query.isLine, query.noNul, query.fits⟩

/-- The log of some lines. -/
theorem Plain.ofStream {lines : List (List UInt8)} (h : Plain lines) :
    (Log.ofStream lines.flatten).committed = window lines ∧
      (Log.ofStream lines.flatten).pending = [] := by
  have hsplit : split newline lines.flatten = (lines, []) := by
    have heq := split_flatten_append (fun line hmem => (h line hmem).1)
      (List.not_mem_nil (a := newline))
    rwa [List.append_nil] at heq
  constructor
  · simp only [Log.ofStream, LineStream.lines, hsplit]
    rfl
  · simp only [Log.ofStream, LineStream.rest, hsplit]

theorem Plain.contents {lines : List (List UInt8)} (h : Plain lines) :
    (Log.ofStream lines.flatten).contents = (window lines).flatten := by
  rw [Log.contents, h.ofStream.1, h.ofStream.2, List.append_nil]

theorem Plain.short {lines : List (List UInt8)} (h : Plain lines) :
    (Log.ofStream lines.flatten).Short := by
  intro segment hmem
  rw [Log.segments, h.ofStream.1, h.ofStream.2] at hmem
  rcases List.mem_append.mp hmem with hline | hrest
  · exact (h segment (List.mem_of_mem_drop hline)).2
  · rw [List.mem_singleton.mp hrest]
    exact ⟨List.not_mem_nil, Nat.zero_lt_succ _⟩

/-- An offset inside a line names a byte. -/
theorem Kernel.Holds.namesByte_iff {k : Kernel} {es : List BufferEntry} {log : Log}
    (h : k.Holds es log) (index offset : Nat) :
    NamesByte es index offset ↔ offset < (log.committed.getD index []).length := by
  constructor
  · rintro ⟨hindex, hoffset⟩
    have hcommitted : index < log.committed.length := h.length_eq ▸ hindex
    obtain ⟨_, _, hsize, _⟩ := h.getElem_holds hindex hcommitted
    rw [List.getD_eq_getElem _ _ hcommitted]
    exact hsize ▸ hoffset
  · intro hoffset
    have hcommitted : index < log.committed.length := by
      by_contra hge
      rw [List.getD_eq_default _ _ (Nat.le_of_not_lt hge)] at hoffset
      exact Nat.not_lt_zero _ hoffset
    have hindex : index < es.length := h.length_eq ▸ hcommitted
    obtain ⟨_, _, hsize, _⟩ := h.getElem_holds hindex hcommitted
    rw [List.getD_eq_getElem _ _ hcommitted] at hoffset
    exact ⟨hindex, hsize ▸ hoffset⟩

/-- What becomes of a seek command, whatever its fields are. -/
theorem Kernel.Holds.ioctl_cases {k : Kernel} {es : List BufferEntry} {log : Log}
    (h : k.Holds es log) (seek : FixedSizeLlseek) (moves : Kernel → Bool) (hshort : log.Short)
    (seekto : AesdSeekto) (fPos : Int) :
    (CharFile.ops seek moves).ioctl ⟨k, fPos⟩ seekto =
      .ok (if seekto.writeCmdOffset.toNat <
          (log.committed.getD (seekto.writeCmd.toNat % 256) []).length then
        (⟨k, (Segments.position (log.committed.map List.length) (seekto.writeCmd.toNat % 256)
          seekto.writeCmdOffset.toNat : Nat)⟩, .done ())
      else (⟨k, fPos⟩, .failed)) := by
  have hsum : (entrySizes es).sum < 2 ^ 63 := by
    have hfit := Nat.lt_trans hshort.length_contents_lt (by decide : 11 * buffsize < 2 ^ 63)
    rw [h.sum_entrySizes]
    rw [Log.contents, List.length_append] at hfit
    omega
  simp only [CharFile.ops, h.toStores.aesdIoctl_eq hsum, Exec.ok_bind, seekReply, h.namesByte_iff,
    h.entrySizes_eq]
  split
  next => rw [if_neg (Int.not_lt.mpr (Int.natCast_nonneg _))]
  next => rfl

namespace CharFile

/-- The device holds the log of these lines. -/
def Keeps (lines : List (List UInt8)) (proc : Process (Machine CharFile)) : Prop :=
  Plain lines ∧ ∃ es, proc.state.file.kernel.Holds es (Log.ofStream lines.flatten)

variable {seek : FixedSizeLlseek} {moves : Kernel → Bool} {choices : Choices}
  {lines : List (List UInt8)} {proc : Process (Machine CharFile)} {query : Query}

/-- A line is committed and echoed with the others. -/
theorem Keeps.line (h : Keeps lines proc) (hnot : ¬ seektoCommand <+: query.text)
    (socketFd : Nat) :
    ∃ proc', Answers (ops seek moves) choices socketFd proc query
        ⟨true, (window (lines ++ [query.text])).flatten⟩ proc' ∧
      Keeps (lines ++ [query.text]) proc' := by
  obtain ⟨hplain, es, hholds⟩ := h
  have hlength : query.text.length < 2 ^ 63 := Nat.lt_trans query.fits (by decide)
  obtain ⟨k', es', fPos, hwrite, h'⟩ := hholds.write_eq seek moves query.isLine hlength 0
  have hnext : (Log.ofStream lines.flatten).commit query.text query.isLine =
      Log.ofStream (lines ++ [query.text]).flatten := by
    have hmem : newline ∈ query.text := by
      obtain ⟨body, heq, _⟩ := query.isLine
      rw [heq]
      exact List.mem_append_right _ (List.mem_singleton_self _)
    have haccept := Log.accept_ofStream lines.flatten query.text
    rw [Log.accept_of_mem _ hmem] at haccept
    simp only [Log.consumed_of_isLine query.isLine] at haccept
    rw [haccept, List.flatten_append, List.flatten_singleton]
  rw [hnext] at h'
  obtain ⟨file, hrelay, hkernel⟩ :=
    h'.relays seek moves (hplain.append query).short (Nat.two_pow_pos 63)
  rw [(hplain.append query).contents, List.drop_zero] at hrelay
  obtain ⟨proc', hanswers, hfile⟩ :=
    answers_of_takes socketFd (takes_line hnot query.isLine.ne_nil hwrite) hrelay
  refine ⟨proc', hanswers, hplain.append query, es', ?_⟩
  rw [hfile, hkernel]
  exact h'

/-- A byte of the log lies in front of its end, and from it on there is the rest
of its line and then the lines after it. -/
theorem drop_window_position {index offset : Nat}
    (hinside : offset < ((window lines).getD index []).length) :
    Segments.position ((window lines).map List.length) index offset <
        (window lines).flatten.length ∧
      (window lines).flatten.drop
          (Segments.position ((window lines).map List.length) index offset) =
        ((window lines).getD index []).drop offset ++
          ((window lines).drop (index + 1)).flatten := by
  have hindex : index < (window lines).length := by
    by_contra hge
    rw [List.getD_eq_default _ _ (Nat.le_of_not_lt hge)] at hinside
    exact Nat.not_lt_zero _ hinside
  have hsizes : index < ((window lines).map List.length).length := by rwa [List.length_map]
  have hoffset : offset < ((window lines).map List.length)[index] := by
    rw [List.getElem_map]
    rwa [List.getD_eq_getElem _ _ hindex] at hinside
  refine ⟨?_, Segments.drop_flatten_of_locate (Segments.locate_position hsizes hoffset)⟩
  rw [List.length_flatten]
  exact Segments.position_lt_sum hsizes hoffset

/-- A command leaves the lines alone, and is answered from where it leads. -/
theorem Keeps.command (h : Keeps lines proc) (hstarts : seektoCommand <+: query.text)
    (socketFd : Nat) :
    ∃ proc', Answers (ops seek moves) choices socketFd proc query (echo lines query).2 proc' ∧
      Keeps (echo lines query).1 proc' := by
  obtain ⟨hplain, es, hholds⟩ := h
  have hfit := Nat.lt_trans hplain.short.length_contents_lt (by decide : 11 * buffsize < 2 ^ 63)
  have hioctl := fun seekto => hholds.ioctl_cases seek moves hplain.short seekto 0
  have htakes := fun file result => @takes_command CharFile (ops seek moves) choices
    ⟨proc.state.file.kernel, 0⟩ file query.text hstarts query.fits result
  have hrelays := fun pos (hpos : pos < 2 ^ 63) => hholds.relays seek moves hplain.short hpos
  rw [hplain.ofStream.1] at hioctl
  rw [hplain.contents] at hrelays hfit
  unfold echo
  rw [if_pos hstarts]
  cases hfields : seektoFields query.text with
  | none =>
      rw [hfields] at htakes
      obtain ⟨file, hrelay, hkernel⟩ := hrelays 0 (Nat.two_pow_pos 63)
      rw [List.drop_zero] at hrelay
      obtain ⟨proc', hanswers, hfile⟩ := answers_of_takes socketFd (htakes _ (.done ()) rfl) hrelay
      exact ⟨proc', hanswers, hplain, es, by rw [hfile, hkernel]; exact hholds⟩
  | some fields =>
      rw [hfields] at htakes
      dsimp only
      by_cases hinside : (toSeekto fields).writeCmdOffset.toNat <
          ((window lines).getD ((toSeekto fields).writeCmd.toNat % 256) []).length
      · obtain ⟨hposition, hdrop⟩ := drop_window_position hinside
        obtain ⟨file, hrelay, hkernel⟩ := hrelays _ (Nat.lt_trans hposition hfit)
        rw [hdrop] at hrelay
        have hdone := hioctl (toSeekto fields)
        rw [if_pos hinside] at hdone
        obtain ⟨proc', hanswers, hfile⟩ := answers_of_takes socketFd (htakes _ _ hdone) hrelay
        rw [if_pos hinside]
        exact ⟨proc', hanswers, hplain, es, by rw [hfile, hkernel]; exact hholds⟩
      · have hfails := hioctl (toSeekto fields)
        rw [if_neg hinside] at hfails
        obtain ⟨proc', hanswers, hfile⟩ :=
          answers_of_refused proc socketFd (htakes _ _ hfails)
        rw [if_neg hinside]
        exact ⟨proc', hanswers, hplain, es, by rw [hfile]; exact hholds⟩

/-- However many clients come one after another to a fresh device, and however
their bytes are cut into pieces, they get the answers of the echo and no others,
and the device is left with the log of its lines. -/
theorem sessions_echo (seek : FixedSizeLlseek) (moves : Kernel → Bool) (choices : Choices)
    (socketFd : Nat) {proc : Process (Machine CharFile)}
    (hfresh : proc.state.file.kernel = Kernel.init) (queries : List Query) :
    (∃ proc', Converses (Answers (ops seek moves) choices socketFd) proc queries
        (serveAll echo [] queries).2 proc' ∧ Keeps (serveAll echo [] queries).1 proc') ∧
      ∀ answers proc', Converses (Answers (ops seek moves) choices socketFd) proc queries answers
        proc' → answers = (serveAll echo [] queries).2 := by
  have hstart : Keeps [] proc :=
    ⟨fun _ hmem => absurd hmem List.not_mem_nil, [], hfresh ▸ Kernel.init_holds⟩
  have hserved : ∃ proc', Converses (Answers (ops seek moves) choices socketFd) proc queries
      (serveAll echo [] queries).2 proc' ∧ Keeps (serveAll echo [] queries).1 proc' := by
    refine Converses.of_refines (fun _ => True) ?_ hstart fun _ _ => trivial
    intro lines proc query h _
    by_cases hstarts : seektoCommand <+: query.text
    · exact h.command hstarts socketFd
    · have hecho : echo lines query = (lines ++ [query.text],
          ⟨true, (window (lines ++ [query.text])).flatten⟩) := if_neg hstarts
      rw [hecho]
      exact h.line hstarts socketFd
  refine ⟨hserved, fun answers proc' hother => ?_⟩
  obtain ⟨_, hconverses, _⟩ := hserved
  exact (hother.unique (fun _ _ _ _ _ _ h h' => h.unique h') hconverses).1

/-- "a\n" in two pieces. -/
def lineQuery : Query where
  text := [97, 10]
  pieces := [[97], [10]]
  isLine := ⟨[97], rfl, by decide⟩
  fits := by decide
  arrives := ⟨[], rfl⟩
  short := by decide

/-- "AESDCHAR_IOCSEEKTO:0,1\n", which names the byte behind the "a". -/
def seekQuery : Query where
  text := seektoLine [48] [49]
  pieces := [seektoLine [48] [49]]
  isLine := ⟨seektoCommand ++ [58, 48, 44, 49], rfl, by decide⟩
  fits := by decide
  arrives := ⟨[], rfl⟩
  short := by decide

example : (serveAll echo [] [lineQuery, seekQuery]).2 = [⟨true, [97, 10]⟩, ⟨true, [10]⟩] := by
  decide +kernel

theorem sessions_echo_seek :
    let fresh : Process (Machine CharFile) := ⟨⟨⟨Kernel.init, 0⟩, [], [], 0⟩, Heap.empty⟩
    let step := Answers (ops .reference fun _ => true) ⟨fun _ => 1, fun _ => true⟩ 4
    (∃ proc', Converses step fresh [lineQuery, seekQuery]
        (serveAll echo [] [lineQuery, seekQuery]).2 proc' ∧
        Keeps (serveAll echo [] [lineQuery, seekQuery]).1 proc') ∧
      ∀ answers proc', Converses step fresh [lineQuery, seekQuery] answers proc' →
        answers = (serveAll echo [] [lineQuery, seekQuery]).2 :=
  sessions_echo .reference _ _ 4 rfl _

end CharFile

end Aesd
