import Aesd.Server.Reception

/-!
# Receiving a line

`aesdsocket_recv_line` on a given sequence of results. Once the peer has shut
down its side, the loop is left only by a newline that a scan has found, so
whether it ends is decided by the pieces. As long as these are short and have no
NULs, the line is the stream up to its first newline, however it was cut.
-/

namespace Aesd

open CSem LineStream

variable {answers : Nat → Resize} {fd : Nat}

/-! ## Termination -/

/-- Whether reception ends: a call fails, a scan finds a newline, or memory runs
out, before a scan leaves the local buffer or the peer is gone. -/
def leaves (answers : Nat → Resize) : List UInt8 → Nat → List Arrival → Bool
  | _, _, [] => false
  | buffer, reallocs, .interrupted :: arrivals => leaves answers buffer reallocs arrivals
  | _, _, .failed :: _ => true
  | buffer, reallocs, .piece bytes :: arrivals =>
      match strchr terminatorCharacter ((overlay buffer bytes).map some) with
      | .error _ => false
      | .ok (some _) => true
      | .ok none =>
          decide (answers reallocs = .null) ||
            leaves answers (overlay buffer bytes) (reallocs + 1) arrivals

section Rounds

variable (answers : Nat → Resize) (fd : Nat) {s : LineBuffer Source} {arrivals : List Arrival}

theorem recvLineRound_closed (harrivals : s.proc.state.arrivals = []) :
    recvLineRound (Source.os answers) fd s = .ok (.again s) := by
  obtain ⟨⟨⟨_, reallocs⟩, heap⟩, buffer, line, size⟩ := s
  subst harrivals
  rfl

theorem recvLineRound_interrupted (harrivals : s.proc.state.arrivals = .interrupted :: arrivals) :
    recvLineRound (Source.os answers) fd s = .ok (.again (s.advance arrivals)) := by
  obtain ⟨⟨⟨_, reallocs⟩, heap⟩, buffer, line, size⟩ := s
  subst harrivals
  rfl

theorem recvLineRound_failed (harrivals : s.proc.state.arrivals = .failed :: arrivals) :
    recvLineRound (Source.os answers) fd s = .ok (.leave (s.advance arrivals, .failed)) := by
  obtain ⟨⟨⟨_, reallocs⟩, heap⟩, buffer, line, size⟩ := s
  subst harrivals
  rfl

end Rounds

variable {arrivals : List Arrival} {s : LineBuffer Source} {text : List UInt8}

theorem LineBuffer.Gathered.advance (h : s.Gathered text) (arrivals : List Arrival) :
    (s.advance arrivals).Gathered text :=
  ⟨h.size, h.live, h.holds⟩

/-- A loop that returns was left in one of these ways. -/
theorem leaves_of_loop {fuel : Nat} {result : LineBuffer Source × LineEnd}
    (hpieces : .piece [] ∉ s.proc.state.arrivals)
    (hloop : loop (recvLineRound (Source.os answers) fd) fuel s = .ok result) :
    leaves answers s.buffer s.proc.state.reallocs s.proc.state.arrivals = true := by
  induction fuel generalizing s with
  | zero => cases hloop
  | succ fuel ih =>
      cases harrivals : s.proc.state.arrivals with
      | nil =>
          -- the peer is gone, and every round is the same
          rw [loop.again (recvLineRound_closed answers fd harrivals)] at hloop
          exact harrivals ▸ ih hpieces hloop
      | cons arrival arrivals =>
          rw [harrivals, List.mem_cons, not_or] at hpieces
          cases arrival with
          | interrupted =>
              rw [loop.again (recvLineRound_interrupted answers fd harrivals)] at hloop
              exact ih (s := s.advance arrivals) hpieces.2 hloop
          | failed => rfl
          | piece bytes =>
              have hne : bytes ≠ [] := fun heq => hpieces.1 (congrArg Arrival.piece heq.symm)
              have hround := recvLineRound_piece answers fd hne harrivals
              cases hcollect : (s.advance arrivals).collect (Source.os answers) bytes with
              | error fault =>
                  rw [loop.fault (hround.trans hcollect)] at hloop
                  cases hloop
              | ok round =>
                  obtain ⟨found, s', hscan, hstate, hbuffer, hcase⟩ :=
                    LineBuffer.collect_eq_ok hcollect
                  have hscan : strchr terminatorCharacter ((overlay s.buffer bytes).map some) =
                      .ok found := hscan
                  have hstate : s'.proc.state = ⟨arrivals, s.proc.state.reallocs + 1⟩ := hstate
                  have hbuffer : s'.buffer = overlay s.buffer bytes := hbuffer
                  simp only [leaves, hscan]
                  cases found with
                  | some position => rfl
                  | none =>
                      rw [Bool.or_eq_true]
                      rcases hcase with ⟨hnull, _⟩ | ⟨_, hagain⟩
                      · exact Or.inl (decide_eq_true hnull)
                      · right
                        have hround : recvLineRound (Source.os answers) fd s = .ok (.again s') :=
                          hround.trans (hcollect.trans (congrArg Except.ok hagain))
                        rw [loop.again hround] at hloop
                        have hleaves := ih (by rw [hstate]; exact hpieces.2) hloop
                        rwa [hstate, hbuffer] at hleaves

/-- A round whose scan stays in the local buffer gathers what the scan says. -/
theorem LineBuffer.Gathered.round_scanned (h : s.Gathered text) {bytes : List UInt8}
    {found : Option Nat} (hne : bytes ≠ [])
    (harrivals : s.proc.state.arrivals = .piece bytes :: arrivals)
    (hmet : answers s.proc.state.reallocs ≠ .null)
    (hscan : strchr terminatorCharacter ((overlay s.buffer bytes).map some) = .ok found) :
    ∃ s' useful, recvLineRound (Source.os answers) fd s =
        .ok (if found.isSome then .leave (s', .eol) else .again s') ∧
      s'.Gathered (text ++ useful) ∧ (found ≠ none → text ++ useful ≠ []) ∧
      s'.buffer = overlay s.buffer bytes ∧
      s'.proc.state = ⟨arrivals, s.proc.state.reallocs + 1⟩ := by
  have hlength : found.elim bytes.length (· + 1) ≤ (overlay s.buffer bytes).length := by
    cases found with
    | none => exact List.length_append ▸ Nat.le_add_right _ _
    | some position => exact strchr_lt hscan
  obtain ⟨useful, hcopy, huseful⟩ := strncpy_of_le hlength
  rw [← huseful] at hcopy
  obtain ⟨s', hcollect, hgathered, hstate, hbuffer, _⟩ :=
    (h.advance arrivals).collect (Source.os answers) rfl hmet hscan huseful hcopy
  refine ⟨s', useful, (recvLineRound_piece answers fd hne harrivals).trans hcollect, hgathered, ?_,
    hbuffer, hstate⟩
  intro hfound
  apply List.ne_nil_of_length_pos
  cases found with
  | none => exact absurd rfl hfound
  | some position =>
      rw [List.length_append, huseful, Option.elim_some]
      omega

/-- When one of them comes up, the loop returns, with a line buffer that can be
closed or released. -/
theorem loop_of_leaves (hpieces : .piece [] ∉ arrivals) (h : s.Gathered text)
    (harrivals : s.proc.state.arrivals = arrivals)
    (hleaves : leaves answers s.buffer s.proc.state.reallocs arrivals = true) :
    ∃ fuel s' lineEnd,
      loop (recvLineRound (Source.os answers) fd) fuel s = .ok (s', lineEnd) ∧
      (∀ q, s'.lineBuffer = some q → (s'.proc.heap.block? q).isSome) ∧
      (lineEnd ≠ .failed → ∃ gathered, gathered ≠ [] ∧ s'.Gathered gathered) := by
  induction arrivals generalizing s text with
  | nil => cases hleaves
  | cons arrival arrivals ih =>
      have hothers : .piece [] ∉ arrivals := fun hmem => hpieces (List.mem_cons_of_mem _ hmem)
      cases arrival with
      | interrupted =>
          obtain ⟨fuel, s', lineEnd, hloop, hends⟩ := ih hothers (h.advance arrivals) rfl hleaves
          exact ⟨fuel + 1, s', lineEnd,
            (loop.again (recvLineRound_interrupted answers fd harrivals) fuel).trans hloop, hends⟩
      | failed =>
          exact ⟨1, _, .failed, loop.leave (recvLineRound_failed answers fd harrivals) 0, h.live,
            fun hne => absurd rfl hne⟩
      | piece bytes =>
          have hne : bytes ≠ [] := fun heq => hpieces (heq ▸ List.mem_cons_self)
          have hround := recvLineRound_piece answers fd hne harrivals
          simp only [leaves] at hleaves
          cases hscan : strchr terminatorCharacter ((overlay s.buffer bytes).map some) with
          | error fault =>
              rw [hscan] at hleaves
              cases hleaves
          | ok found =>
              rw [hscan] at hleaves
              by_cases hnull : answers s.proc.state.reallocs = .null
              · have hrealloc : (Source.os answers).realloc (s.advance arrivals).proc.state =
                    (⟨arrivals, s.proc.state.reallocs + 1⟩, .null) := congrArg (Prod.mk _) hnull
                have hcollect := LineBuffer.collect_of_null hrealloc hscan
                exact ⟨1, _, .failed, loop.leave (hround.trans hcollect) 0, nofun,
                  fun hne => absurd rfl hne⟩
              · obtain ⟨s', useful, hround, hgathered, hnonempty, hbuffer, hstate⟩ :=
                  h.round_scanned hne harrivals hnull hscan
                cases found with
                | some position =>
                    exact ⟨1, s', .eol, loop.leave hround 0, hgathered.live,
                      fun _ => ⟨_, hnonempty nofun, hgathered⟩⟩
                | none =>
                    simp only [hnull, decide_false, Bool.false_or] at hleaves
                    have hrest : leaves answers s'.buffer s'.proc.state.reallocs arrivals = true := by
                      rw [hbuffer, hstate]
                      exact hleaves
                    obtain ⟨fuel, s'', lineEnd, hloop, hends⟩ :=
                      ih hothers hgathered (by rw [hstate]) hrest
                    exact ⟨fuel + 1, s'', lineEnd, (loop.again hround fuel).trans hloop, hends⟩

/-! ## Short pieces -/

/-- The bytes that come in, in order. -/
def stream (arrivals : List Arrival) : List UInt8 :=
  arrivals.flatMap fun
    | .piece bytes => bytes
    | _ => []

/-- A local buffer that never held a newline and whose last byte was never
stored to. -/
structure CleanBuffer (buffer : List UInt8) : Prop where
  length_eq : buffer.length = buffsize
  last : ∃ front, buffer = front ++ [0]
  noNewline : newline ∉ buffer

theorem cleanBuffer_start : CleanBuffer (List.replicate buffsize 0) where
  length_eq := List.length_replicate
  last := ⟨List.replicate 1023 0, List.replicate_succ'⟩
  noNewline := fun hmem => absurd (List.eq_of_mem_replicate hmem) (by decide)

section

variable {buffer bytes : List UInt8}

/-- A short piece leaves a NUL behind it. -/
theorem CleanBuffer.behind (h : CleanBuffer buffer) (hshort : bytes.length < buffsize) :
    ∃ front, buffer.drop bytes.length = front ++ [0] ∧ newline ∉ front := by
  obtain ⟨front, hlast⟩ := h.last
  have hlength := h.length_eq
  rw [hlast, List.length_append, List.length_singleton] at hlength
  refine ⟨front.drop bytes.length, ?_, fun hmem => ?_⟩
  · rw [hlast, List.drop_append_of_le_length (by omega)]
  · exact h.noNewline (hlast ▸ List.mem_append_left _ (List.mem_of_mem_drop hmem))

theorem CleanBuffer.overlay (h : CleanBuffer buffer) (hshort : bytes.length < buffsize)
    (hnewline : newline ∉ bytes) : CleanBuffer (overlay buffer bytes) := by
  obtain ⟨front, hbehind, hfront⟩ := h.behind hshort
  refine ⟨?_, ⟨bytes ++ front, ?_⟩, ?_⟩
  · rw [length_overlay (by rw [h.length_eq]; omega), h.length_eq]
  · rw [Aesd.overlay, hbehind, List.append_assoc]
  · rw [Aesd.overlay, hbehind, List.mem_append, List.mem_append, List.mem_singleton, not_or, not_or]
    exact ⟨hnewline, hfront, by decide⟩

/-- The scan of a short piece without a newline ends at a stale NUL. -/
theorem CleanBuffer.scan (h : CleanBuffer buffer) (hshort : bytes.length < buffsize)
    (hnewline : newline ∉ bytes) :
    strchr terminatorCharacter ((Aesd.overlay buffer bytes).map some) = .ok none := by
  obtain ⟨front, hbehind, hfront⟩ := h.behind hshort
  apply (strchr_eq_none_iff (by decide)).mpr
  refine ⟨bytes ++ front, [], ?_, ?_⟩
  · rw [Aesd.overlay, hbehind, List.append_assoc]
  · rw [List.mem_append, not_or]
    exact ⟨hnewline, hfront⟩

/-- The scan of a piece with a newline finds the first one. -/
theorem scan_found (buffer back : List UInt8) {front : List UInt8} (hnewline : newline ∉ front)
    (hnul : 0 ∉ front) :
    strchr terminatorCharacter ((Aesd.overlay buffer (front ++ newline :: back)).map some) =
      .ok (some front.length) := by
  rw [overlay, List.append_assoc, List.map_append]
  exact strchr_found hnewline hnul _

end

/-- While pieces are short and have no NULs and there is memory, only a newline
in the stream ends reception. -/
theorem leaves_iff_newline (hmemory : ∀ n, answers n ≠ .null) (hfailed : .failed ∉ arrivals)
    (hpieces : ∀ bytes, .piece bytes ∈ arrivals → 0 ∉ bytes ∧ bytes.length < buffsize)
    {buffer : List UInt8} (hclean : CleanBuffer buffer) (reallocs : Nat) :
    leaves answers buffer reallocs arrivals = true ↔ newline ∈ stream arrivals := by
  induction arrivals generalizing buffer reallocs with
  | nil => simp [leaves, stream]
  | cons arrival arrivals ih =>
      rw [List.mem_cons, not_or] at hfailed
      have hothers : ∀ bytes, .piece bytes ∈ arrivals → 0 ∉ bytes ∧ bytes.length < buffsize :=
        fun bytes hmem => hpieces bytes (List.mem_cons_of_mem _ hmem)
      have hstream : stream (arrival :: arrivals) = stream [arrival] ++ stream arrivals := by
        simp [stream]
      rw [hstream, List.mem_append]
      cases arrival with
      | interrupted => simpa [leaves, stream] using ih hfailed.2 hothers hclean reallocs
      | failed => exact absurd rfl hfailed.1
      | piece bytes =>
          obtain ⟨hnul, hshort⟩ := hpieces bytes List.mem_cons_self
          have hbytes : stream [.piece bytes] = bytes := by simp [stream]
          rw [hbytes]
          by_cases hnewline : newline ∈ bytes
          · obtain ⟨front, back, rfl, hfront⟩ := List.eq_append_cons_of_mem hnewline
            have hscan := scan_found buffer back hfront
              (fun hmem => hnul (List.mem_append_left _ hmem))
            simp [leaves, hscan]
          · simp only [leaves, hclean.scan hshort hnewline, hmemory, decide_false, Bool.false_or,
              hnewline, false_or]
            exact ih hfailed.2 hothers (hclean.overlay hshort hnewline) (reallocs + 1)

/-! ## Whether reception ends -/

theorem exists_recvLine_iff (hpieces : .piece [] ∉ arrivals) {heap : Heap} {line : Option Ptr}
    (hlive : ∀ q, line = some q → (heap.block? q).isSome) :
    (∃ fuel result, aesdsocketRecvLine (Source.os answers) fuel fd ⟨⟨arrivals, 0⟩, heap⟩ line =
        .ok result) ↔
      leaves answers (List.replicate buffsize 0) 0 arrivals = true := by
  constructor
  · rintro ⟨fuel, result, hreturns⟩
    obtain ⟨_, hloop, _⟩ := Exec.bind_eq_ok.mp hreturns
    exact leaves_of_loop hpieces hloop
  · intro hleaves
    have hstart : (LineBuffer.start (⟨⟨arrivals, 0⟩, heap⟩ : Process Source) line).Gathered [] :=
      LineBuffer.gathered_start _ hlive
    obtain ⟨fuel, s, lineEnd, hloop, hbuffer, hends⟩ := loop_of_leaves hpieces hstart rfl hleaves
    unfold aesdsocketRecvLine
    refine ⟨fuel, ?_⟩
    rw [hloop, Exec.ok_bind]
    cases lineEnd with
    | failed =>
        obtain ⟨released, hrelease⟩ := LineBuffer.release_ok hbuffer line
        exact ⟨_, by simp only [hrelease, Exec.ok_bind]; rfl⟩
    | eol =>
        obtain ⟨gathered, hne, hgathered⟩ := hends LineEnd.noConfusion
        obtain ⟨closed, hclose⟩ := hgathered.terminate_ok hne
        exact ⟨_, by simp only [hclose, Exec.ok_bind]; rfl⟩
    | ended =>
        obtain ⟨gathered, hne, hgathered⟩ := hends LineEnd.noConfusion
        obtain ⟨closed, hclose⟩ := hgathered.terminate_ok hne
        exact ⟨_, by simp only [hclose, Exec.ok_bind]; rfl⟩

/-- Reception returns exactly for the sequences that lead out of its loop. While
pieces are short and have no NULs and there is memory, that is when the client has
sent a newline. -/
theorem recvLine_returns_iff (answers : Nat → Resize) (fd : Nat) {arrivals : List Arrival}
    (hpieces : .piece [] ∉ arrivals) {heap : Heap} {line : Option Ptr}
    (hlive : ∀ q, line = some q → (heap.block? q).isSome) :
    ((∃ fuel result, aesdsocketRecvLine (Source.os answers) fuel fd ⟨⟨arrivals, 0⟩, heap⟩ line =
        .ok result) ↔
      leaves answers (List.replicate buffsize 0) 0 arrivals = true) ∧
    ((∀ n, answers n ≠ .null) → .failed ∉ arrivals →
      (∀ bytes, .piece bytes ∈ arrivals → 0 ∉ bytes ∧ bytes.length < buffsize) →
      (leaves answers (List.replicate buffsize 0) 0 arrivals = true ↔
        newline ∈ stream arrivals)) := by
  refine ⟨exists_recvLine_iff hpieces hlive, fun hmemory hfailed hshort => ?_⟩
  exact leaves_iff_newline hmemory hfailed hshort cleanBuffer_start 0

theorem recvLine_returns_iff_line : ∃ fuel result, aesdsocketRecvLine (Source.os fun _ => .moved)
    fuel 4 ⟨⟨[.interrupted, .piece [97], .piece [98, 10]], 0⟩, Heap.empty⟩ none = .ok result := by
  have hlive : ∀ q, (none : Option Ptr) = some q → (Heap.empty.block? q).isSome := by
    intro q heq
    cases heq
  exact (recvLine_returns_iff (fun _ => .moved) 4 (by decide) hlive).1.mpr (by decide +kernel)

/-- A client that sends one letter and shuts down its side is waited for forever. -/
theorem recvLine_not_ending : ¬ ∀ (answers : Nat → Resize) (fd : Nat) (arrivals : List Arrival),
    (∀ bytes, .piece bytes ∈ arrivals → 0 < bytes.length ∧ bytes.length ≤ buffsize) →
    .failed ∉ arrivals →
    ∃ fuel result, aesdsocketRecvLine (Source.os answers) fuel fd
      ⟨⟨arrivals, 0⟩, Heap.empty⟩ none = .ok result := by
  intro hall
  have hsize : ∀ bytes, .piece bytes ∈ [Arrival.piece [97]] →
      0 < bytes.length ∧ bytes.length ≤ buffsize := by
    intro bytes hmem
    cases List.mem_singleton.mp hmem
    decide
  obtain ⟨fuel, result, hreturns⟩ := hall (fun _ => .moved) 4 _ hsize (by decide)
  obtain ⟨_, hloop, _⟩ := Exec.bind_eq_ok.mp hreturns
  have hpieces : .piece [] ∉ (LineBuffer.start (⟨⟨[.piece [97]], 0⟩, Heap.empty⟩ :
      Process Source) none).proc.state.arrivals := by decide
  exact absurd (leaves_of_loop hpieces hloop) (by decide +kernel)

/-! ## Framing -/

/-- A piece with a newline ends the line. -/
theorem LineBuffer.Gathered.round_found (h : s.Gathered text) {front back : List UInt8}
    (hmet : answers s.proc.state.reallocs ≠ .null) (hnewline : newline ∉ front) (hnul : 0 ∉ front)
    (harrivals : s.proc.state.arrivals = .piece (front ++ newline :: back) :: arrivals) :
    ∃ s', recvLineRound (Source.os answers) fd s = .ok (.leave (s', .eol)) ∧
      s'.Gathered (text ++ (front ++ [newline])) := by
  have hround := recvLineRound_piece answers fd (by simp) harrivals
  have hcopy : strncpy ((overlay s.buffer (front ++ newline :: back)).map some)
      (front ++ [newline]).length = .ok (front ++ [newline]) := by
    have hsplit : (overlay s.buffer (front ++ newline :: back)).map some =
        (front ++ [newline]).map some ++ (back ++
          s.buffer.drop (front ++ newline :: back).length).map some := by
      simp [overlay]
    rw [hsplit]
    exact strncpy_eq (notMem_line hnul) _
  obtain ⟨s', hcollect, hgathered, _⟩ := (h.advance arrivals).collect (Source.os answers) rfl hmet
    (scan_found s.buffer back hnewline hnul) List.length_append hcopy
  exact ⟨s', hround.trans hcollect, hgathered⟩

/-- A short piece without a newline is gathered, and the loop goes on. -/
theorem LineBuffer.Gathered.round_more (h : s.Gathered text) (hclean : CleanBuffer s.buffer)
    {bytes : List UInt8} (hmet : answers s.proc.state.reallocs ≠ .null) (hne : bytes ≠ [])
    (hnul : 0 ∉ bytes) (hshort : bytes.length < buffsize) (hnewline : newline ∉ bytes)
    (harrivals : s.proc.state.arrivals = .piece bytes :: arrivals) :
    ∃ s', recvLineRound (Source.os answers) fd s = .ok (.again s') ∧
      s'.Gathered (text ++ bytes) ∧ CleanBuffer s'.buffer ∧ s'.proc.state.arrivals = arrivals := by
  have hround := recvLineRound_piece answers fd hne harrivals
  have hcopy : strncpy ((overlay s.buffer bytes).map some) bytes.length = .ok bytes := by
    rw [overlay, List.map_append]
    exact strncpy_eq hnul _
  obtain ⟨s', hcollect, hgathered, hstate, hbuffer, _⟩ :=
    (h.advance arrivals).collect (Source.os answers) rfl hmet (hclean.scan hshort hnewline) rfl hcopy
  have hbuffer : s'.buffer = overlay s.buffer bytes := hbuffer
  exact ⟨s', hround.trans hcollect, hgathered, hbuffer ▸ hclean.overlay hshort hnewline,
    by rw [hstate]; rfl⟩

/-- The loop gathers the stream up to its first newline. -/
theorem loop_gathers (hmemory : ∀ n, answers n ≠ .null) (hfailed : .failed ∉ arrivals)
    (hpieces : ∀ bytes, .piece bytes ∈ arrivals →
      bytes ≠ [] ∧ 0 ∉ bytes ∧ bytes.length < buffsize)
    {front back : List UInt8} (hstream : stream arrivals = front ++ newline :: back)
    (hfront : newline ∉ front) (h : s.Gathered text) (hclean : CleanBuffer s.buffer)
    (harrivals : s.proc.state.arrivals = arrivals) :
    ∃ fuel s', loop (recvLineRound (Source.os answers) fd) fuel s = .ok (s', .eol) ∧
      s'.Gathered (text ++ (front ++ [newline])) := by
  induction arrivals generalizing s text front with
  | nil => simp [stream] at hstream
  | cons arrival arrivals ih =>
      rw [List.mem_cons, not_or] at hfailed
      have hothers : ∀ bytes, .piece bytes ∈ arrivals →
          bytes ≠ [] ∧ 0 ∉ bytes ∧ bytes.length < buffsize :=
        fun bytes hmem => hpieces bytes (List.mem_cons_of_mem _ hmem)
      cases arrival with
      | interrupted =>
          obtain ⟨fuel, s', hloop, hgathered⟩ :=
            ih hfailed.2 hothers hstream hfront (h.advance arrivals) hclean rfl
          exact ⟨fuel + 1, s',
            (loop.again (recvLineRound_interrupted answers fd harrivals) fuel).trans hloop, hgathered⟩
      | failed => exact absurd rfl hfailed.1
      | piece bytes =>
          obtain ⟨hne, hnul, hshort⟩ := hpieces bytes List.mem_cons_self
          have hstream : bytes ++ stream arrivals = front ++ newline :: back := by
            simpa [stream] using hstream
          have hmet := hmemory s.proc.state.reallocs
          by_cases hnewline : newline ∈ bytes
          · obtain ⟨front', back', rfl, hfront'⟩ := List.eq_append_cons_of_mem hnewline
            -- both decompositions cut the stream at its first newline
            rw [List.append_assoc, List.cons_append] at hstream
            obtain rfl := front_unique hfront hfront' hstream
            have hnul' : 0 ∉ front' := fun hmem => hnul (List.mem_append_left _ hmem)
            obtain ⟨s', hround, hgathered⟩ := h.round_found hmet hfront' hnul' harrivals
            exact ⟨1, s', loop.leave hround 0, hgathered⟩
          · -- the piece lies in front of the first newline
            obtain ⟨front', rfl, hrest⟩ := front_of_notMem hnewline hstream
            obtain ⟨s', hround, hgathered, hclean', harrivals'⟩ :=
              h.round_more hclean hmet hne hnul hshort hnewline harrivals
            obtain ⟨fuel, s'', hloop, hgathered'⟩ := ih hfailed.2 hothers hrest
              (fun hmem => hfront (List.mem_append_right _ hmem)) hgathered hclean' harrivals'
            refine ⟨fuel + 1, s'', (loop.again hround fuel).trans hloop, ?_⟩
            rw [List.append_assoc] at hgathered' ⊢
            exact hgathered'

/-- However the stream is cut into short pieces, and however often the calls are
interrupted, the line handed over is the stream up to its first newline. -/
theorem recvLine_frames (answers : Nat → Resize) (hmemory : ∀ n, answers n ≠ .null) (fd : Nat)
    (heap : Heap) {front back : List UInt8} (hfront : newline ∉ front)
    (hnul : 0 ∉ front ++ newline :: back) {arrivals : List Arrival}
    (hcut : stream arrivals = front ++ newline :: back)
    (hsize : ∀ bytes, .piece bytes ∈ arrivals → 1 ≤ bytes.length ∧ bytes.length ≤ 1023)
    (hfailed : .failed ∉ arrivals) :
    ∃ proc p, Settles (fun fuel => aesdsocketRecvLine (Source.os answers) fuel fd
        ⟨⟨arrivals, 0⟩, heap⟩ none) (.ok (proc, true, some p)) ∧
      proc.heap.HoldsString p (front ++ [newline]) := by
  have hpieces : ∀ bytes, .piece bytes ∈ arrivals →
      bytes ≠ [] ∧ 0 ∉ bytes ∧ bytes.length < buffsize := by
    intro bytes hmem
    obtain ⟨hpos, hle⟩ := hsize bytes hmem
    refine ⟨List.ne_nil_of_length_pos hpos, fun hzero => hnul ?_, Nat.lt_succ_of_le hle⟩
    rw [← hcut]
    exact List.mem_flatMap.mpr ⟨_, hmem, hzero⟩
  have hlive : ∀ q, (none : Option Ptr) = some q → (heap.block? q).isSome := by
    intro q heq
    cases heq
  have hstart : (LineBuffer.start (⟨⟨arrivals, 0⟩, heap⟩ : Process Source) none).Gathered [] :=
    LineBuffer.gathered_start _ hlive
  obtain ⟨fuel, s, hloop, hgathered⟩ :=
    loop_gathers hmemory hfailed hpieces hcut hfront hstart cleanBuffer_start rfl
  rw [List.nil_append] at hgathered
  have hne : front ++ [newline] ≠ [] := by simp
  have hstring : 0 ∉ front ++ [newline] :=
    notMem_line fun hmem => hnul (List.mem_append_left _ hmem)
  obtain ⟨closed, hterminate, hline, _⟩ := hgathered.terminate hne hstring
  obtain ⟨p, hptr, _⟩ := hgathered.holds hne
  rw [hptr] at hline
  refine ⟨⟨s.proc.state, closed⟩, p, ?_, hline⟩
  refine (Settles.of_loop hloop).bind ?_
  simp only [hterminate, hptr, Exec.ok_bind]
  exact Settles.const _

/-- "ab\n" in two pieces and with an interruption, followed by another byte. -/
theorem recvLine_frames_twoPieces : ∃ proc p, Settles (fun fuel => aesdsocketRecvLine
      (Source.os fun _ => .moved) fuel 4
      ⟨⟨[.piece [97], .interrupted, .piece [98, 10, 99]], 0⟩, Heap.empty⟩ none)
      (.ok (proc, true, some p)) ∧
    proc.heap.HoldsString p [97, 98, 10] := by
  have hsize : ∀ bytes,
      .piece bytes ∈ [Arrival.piece [97], .interrupted, .piece [98, 10, 99]] →
      1 ≤ bytes.length ∧ bytes.length ≤ 1023 := by
    intro bytes hmem
    simp only [List.mem_cons, Arrival.piece.injEq, reduceCtorEq, List.not_mem_nil, or_false,
      false_or] at hmem
    rcases hmem with rfl | rfl <;> decide
  have hfront : newline ∉ ([97, 98] : List UInt8) := by decide
  have hnul : 0 ∉ ([97, 98] : List UInt8) ++ newline :: [99] := by decide
  exact recvLine_frames (fun _ => .moved) (fun _ => Resize.noConfusion) 4 Heap.empty hfront hnul
    (by decide) hsize (by decide)

end Aesd
