import Aesd.Server.FileCalls

/-!
# Writing a line to the end

In an environment that answers, a line is written completely unless a write fails,
whatever parts of it the writes take.
-/

namespace Aesd

open CSem

variable {σ : Type}

/-- An environment that answers. A write comes back once it is no longer
interrupted, and one that does not fail has taken some of the bytes. -/
structure Os.Answers (os : Os σ) : Prop where
  writes : ∀ state fd bytes, ∃ fuel result,
    retryOnEintr (fun state => os.write state fd bytes) fuel state = .ok result
  takes : ∀ state fd bytes state' count, os.write state fd bytes = .ok (state', .done count) →
    count ≤ bytes.length ∧ (bytes ≠ [] → 0 < count)
  seeks : ∀ state fd arg, ∃ result, os.ioctl state fd arg = .ok result
  closes : ∀ state fd, ∃ state', os.closeFile state fd = .ok state'
  opens : ∀ state writable, ∃ result, os.openFile state writable = .ok result

/-- A call that is repeated has its value from the last time. -/
theorem logCall_of_retry {α : Type} {event : CallResult α → SystemCall}
    {call : σ → Exec (σ × CallResult α)} {fuel : Nat} {s s' : Logged σ} {value : α}
    (hretry : retryOnEintr (logCall event call) fuel s = .ok (s', some value)) :
    ∃ state state', call state = .ok (state', .done value) := by
  obtain ⟨before, -, hcall⟩ :=
    retryOnEintr_sound (fun _ => True) (fun _ _ _ _ => trivial) trivial hretry
  obtain ⟨⟨state', _⟩, hplain, heq⟩ := Exec.bind_eq_ok.mp hcall
  cases heq
  exact ⟨before.1, state', hplain⟩

/-- Writing down the calls does not keep a repeated call from coming back. -/
theorem retry_logged {α : Type} (event : CallResult α → SystemCall)
    {call : σ → Exec (σ × CallResult α)} {fuel : Nat} {s : Logged σ} {result : σ × Option α}
    (hretry : retryOnEintr call fuel s.1 = .ok result) :
    ∃ s', retryOnEintr (logCall event call) fuel s = .ok (s', result.2) := by
  unfold retryOnEintr at hretry ⊢
  induction fuel generalizing s with
  | zero => cases hretry
  | succ fuel ih =>
      cases hcall : call s.1 with
      | error fault =>
          rw [loop.fault (by rw [hcall]; rfl)] at hretry
          cases hretry
      | ok answer =>
          obtain ⟨state, answer⟩ := answer
          have hlogged : logCall event call s = .ok ((state, s.2 ++ [event answer]), answer) := by
            rw [logCall, hcall]
            rfl
          cases answer with
          | interrupted =>
              rw [loop.again (by rw [hcall]; rfl)] at hretry
              rw [loop.again (by rw [hlogged]; rfl)]
              exact ih hretry
          | done value =>
              rw [loop.leave (by rw [hcall]; rfl)] at hretry
              cases hretry
              exact ⟨_, loop.leave (by rw [hlogged]; rfl) fuel⟩
          | failed =>
              rw [loop.leave (by rw [hcall]; rfl)] at hretry
              cases hretry
              exact ⟨_, loop.leave (by rw [hlogged]; rfl) fuel⟩

/-- The calls while a line is being written: the file has taken all but the last
bytes. -/
structure Writing (text : List UInt8) (fd left : Nat) (calls : List SystemCall) : Prop where
  le : left ≤ text.length
  noSeek : seeks calls = []
  taken : written fd calls = text.take (text.length - left)

theorem written_interrupted (fd : Nat) (bytes : List UInt8) (count : Nat) :
    written fd (List.replicate count (.write fd bytes .interrupted)) = [] := by
  apply List.flatMap_eq_nil_iff.mpr
  intro call hmem
  rw [List.eq_of_mem_replicate hmem]
  rfl

theorem seeks_write (fd : Nat) (bytes : List UInt8) (count : Nat) (result : CallResult Nat) :
    seeks (List.replicate count (.write fd bytes .interrupted) ++ [.write fd bytes result]) = [] := by
  apply List.filterMap_eq_nil_iff.mpr
  intro call hmem
  rcases List.mem_append.mp hmem with hmem | hmem
  · rw [List.eq_of_mem_replicate hmem]
    rfl
  · rw [List.mem_singleton.mp hmem]
    rfl

theorem Writing.more {text : List UInt8} {fd left count repeats : Nat} {calls : List SystemCall}
    (h : Writing text fd left calls) (hle : count ≤ left) :
    Writing text fd (left - count) (calls ++
      (List.replicate repeats (.write fd (text.drop (text.length - left)) .interrupted) ++
        [.write fd (text.drop (text.length - left)) (.done count)])) where
  le := Nat.le_trans (Nat.sub_le _ _) h.le
  noSeek := by rw [seeks_append, h.noSeek, seeks_write, List.append_nil]
  taken := by
    have hlast : written fd [.write fd (text.drop (text.length - left)) (.done count)] =
        (text.drop (text.length - left)).take count := by
      simp [written, SystemCall.written]
    have hleft := h.le
    rw [written_append, written_append, h.taken, written_interrupted, hlast, List.nil_append,
      ← List.take_add]
    congr 1
    omega

section

variable {os : Os σ} {fuel fd : Nat} {heap : Heap} {p : Ptr} {text : List UInt8}

/-- A round of writing that goes on has moved some bytes of the line into the
file. -/
theorem writeLineRound_writing (hanswers : os.Answers) (h : heap.HoldsString p text)
    (hlt : text.length < 2 ^ 64) {start : Logged σ} {s : Process (Logged σ) × Nat}
    {round : Round (Process (Logged σ) × Nat) (Process (Logged σ) × Bool)}
    (hheap : s.1.heap = heap) (hs : ∃ calls, Adds start s.1.state calls ∧ Writing text fd s.2 calls)
    (hround : writeLineRound os.logged fuel fd (some p) s = .ok round) :
    (∃ proc count calls, round = .again (proc, s.2 - count) ∧ 0 < count ∧ count ≤ s.2 ∧
      proc.heap = heap ∧ Adds start proc.state calls ∧ Writing text fd (s.2 - count) calls) ∨
    (∃ proc calls, round = .leave (proc, true) ∧ s.2 = 0 ∧ proc.heap = heap ∧
      Adds start proc.state calls ∧ Writing text fd 0 calls) ∨
    ∃ proc calls bytes, round = .leave (proc, false) ∧ proc.heap = heap ∧
      Adds start proc.state calls ∧ seeks calls = [] ∧ written fd calls <+: text ∧
      .write fd bytes .failed ∈ calls := by
  obtain ⟨calls, hadds, hwriting⟩ := hs
  rcases writeLineRound_eq_ok hround with
    ⟨hzero, heq⟩ | ⟨bytes, state, result, repeats, hmore, hbytes, hwrite, hadds', heq⟩
  · rw [hzero] at hwriting
    exact Or.inr (Or.inl ⟨s.1, calls, heq, hzero, hheap, hadds, hwriting⟩)
  · rw [hheap, remainingBytes_eq h hwriting.le] at hbytes
    obtain rfl := Except.ok.inj hbytes
    cases result with
    | none =>
        -- the file keeps what the writes before have put into it
        refine Or.inr (Or.inr ⟨_, _, _, heq, hheap, hadds.trans hadds', ?_, ?_,
          List.mem_append_right _ (List.mem_append_right _ (List.mem_singleton_self _))⟩)
        · rw [seeks_append, hwriting.noSeek, Option.elim, seeks_write, List.append_nil]
        · rw [written_append, written_append, hwriting.taken, written_interrupted]
          have hnone : written fd [.write fd (text.drop (text.length - s.2)) .failed] = [] := rfl
          rw [Option.elim, hnone, List.append_nil, List.append_nil]
          exact List.take_prefix _ _
    | some count =>
        obtain ⟨state, state', hcall⟩ := logCall_of_retry hwrite
        obtain ⟨hcount, hpos⟩ := hanswers.takes _ _ _ _ _ hcall
        have hleft := hwriting.le
        rw [List.length_drop] at hcount
        -- something is left to offer, so that the write takes some of it
        have hne : text.drop (text.length - s.2) ≠ [] := by
          rw [← List.length_pos_iff, List.length_drop]
          omega
        have hwidth : u64 ((s.2 : Int) - count) = s.2 - count := u64_sub (by omega) (by omega)
        simp only [hwidth] at heq
        exact Or.inl ⟨_, count, _, heq, hpos hne, by omega, hheap, hadds.trans hadds',
          hwriting.more (by omega)⟩

/-- Writing a line puts all of it into the file, or a first part and a write
fails. -/
theorem writeLine_written (hanswers : os.Answers) {proc proc' : Process (Logged σ)} {ok : Bool}
    (h : proc.heap.HoldsString p text) (hlt : text.length < 2 ^ 64)
    (hreturns : aesdsocketWriteLine os.logged fuel fd proc (some p) = .ok (proc', ok)) :
    ∃ calls, Adds proc.state proc'.state calls ∧ seeks calls = [] ∧ written fd calls <+: text ∧
      ((∀ call ∈ calls, call.isFailedWrite = false) → written fd calls = text) := by
  obtain ⟨cells, hcells, hlength⟩ := h.exists_strlen
  unfold aesdsocketWriteLine at hreturns
  rw [hcells, Exec.ok_bind, hlength, Exec.ok_bind] at hreturns
  obtain ⟨⟨last, done⟩, hloop, hreturns⟩ := Exec.bind_eq_ok.mp hreturns
  have hstart : Adds proc.state (os.logged.startWriting proc.state) [.startWriting] := rfl
  have hwriting : Writing text fd text.length [.startWriting] :=
    ⟨Nat.le_refl _, rfl, by rw [Nat.sub_self]; rfl⟩
  obtain ⟨calls, hadds, hseeks, hpart, hall⟩ : ∃ calls, Adds proc.state last.state calls ∧
      seeks calls = [] ∧ written fd calls <+: text ∧
      ((∀ call ∈ calls, call.isFailedWrite = false) → written fd calls = text) := by
    refine loop.sound
      (fun s => s.1.heap = proc.heap ∧ ∃ calls, Adds proc.state s.1.state calls ∧
        Writing text fd s.2 calls)
      (fun r => ∃ calls, Adds proc.state r.1.state calls ∧
        seeks calls = [] ∧ written fd calls <+: text ∧
        ((∀ call ∈ calls, call.isFailedWrite = false) → written fd calls = text))
      ?_ ?_ ⟨rfl, _, hstart, hwriting⟩ hloop
    · rintro s next ⟨hheap, hs⟩ hround
      rcases writeLineRound_writing hanswers h hlt hheap hs hround with
        ⟨proc, count, calls, heq, _, _, hheap', hadds, hwriting⟩ | ⟨_, _, heq, _⟩ | ⟨_, _, _, heq, _⟩
      · cases heq
        exact ⟨hheap', calls, hadds, hwriting⟩
      · cases heq
      · cases heq
    · rintro s result ⟨hheap, hs⟩ hround
      rcases writeLineRound_writing hanswers h hlt hheap hs hround with
        ⟨_, _, _, heq, _⟩ | ⟨proc, calls, heq, _, _, hadds, hwriting⟩ |
          ⟨proc, calls, bytes, heq, _, hadds, hseeks, hpart, hfailed⟩
      · cases heq
      · cases heq
        have hwhole : written fd calls = text := by
          rw [hwriting.taken, Nat.sub_zero, List.take_length]
        exact ⟨calls, hadds, hwriting.noSeek, hwhole ▸ List.prefix_refl _, fun _ => hwhole⟩
      · cases heq
        exact ⟨calls, hadds, hseeks, hpart, fun hnone => Bool.noConfusion (hnone _ hfailed)⟩
  cases done with
  | true =>
      cases hreturns
      have hstop : Adds last.state (os.logged.stopWriting last.state) [.stopWriting] := rfl
      have hnothing : written fd [.stopWriting] = [] := rfl
      refine ⟨_, hadds.trans hstop, ?_, ?_, fun hnone => ?_⟩
      · rw [seeks_append, hseeks]
        rfl
      · rwa [written_append, hnothing, List.append_nil]
      · rw [written_append, hnothing, List.append_nil]
        exact hall fun call hmem => hnone call (List.mem_append_left _ hmem)
  | false =>
      cases hreturns
      exact ⟨calls, hadds, hseeks, hpart, hall⟩

/-- A round of writing comes back. -/
theorem writeLineRound_settles (hanswers : os.Answers) (h : heap.HoldsString p text)
    {s : Process (Logged σ) × Nat} (hheap : s.1.heap = heap) (hle : s.2 ≤ text.length) :
    ∃ round, Settles (fun fuel => writeLineRound os.logged fuel fd (some p) s) (.ok round) := by
  unfold writeLineRound
  by_cases hzero : s.2 = 0
  · simp only [if_pos hzero]
    exact ⟨_, Settles.const _⟩
  · simp only [if_neg hzero, hheap, remainingBytes_eq h hle, Exec.ok_bind]
    obtain ⟨fuel, result, hplain⟩ :=
      hanswers.writes s.1.state.1 fd (text.drop (text.length - s.2))
    obtain ⟨state, hretry⟩ :=
      retry_logged (.write fd (text.drop (text.length - s.2))) hplain
    have hcall : Settles (fun fuel => retryOnEintr (fun state => os.logged.write state fd
        (text.drop (text.length - s.2))) fuel s.1.state) (.ok (state, result.2)) :=
      Settles.of_loop hretry
    cases hresult : result.2 with
    | none =>
        rw [hresult] at hcall
        exact ⟨_, hcall.bind (Settles.const _)⟩
    | some count =>
        rw [hresult] at hcall
        exact ⟨_, hcall.bind (Settles.const _)⟩

/-- A round of writing comes back, and less is left when the loop goes on. -/
theorem writeLineRound_lowers (hanswers : os.Answers) (h : heap.HoldsString p text)
    (hlt : text.length < 2 ^ 64) {start : Logged σ} {s : Process (Logged σ) × Nat}
    (hheap : s.1.heap = heap)
    (hs : ∃ calls, Adds start s.1.state calls ∧ Writing text fd s.2 calls) :
    ∃ round, Settles (fun fuel => writeLineRound os.logged fuel fd (some p) s) (.ok round) ∧
      ∀ next, round = .again next →
        (next.1.heap = heap ∧
          ∃ calls, Adds start next.1.state calls ∧ Writing text fd next.2 calls) ∧
        next.2 < s.2 := by
  obtain ⟨_, _, hwriting⟩ := id hs
  obtain ⟨round, hsettles⟩ := writeLineRound_settles (s := s) hanswers h hheap hwriting.le
  refine ⟨round, hsettles, ?_⟩
  rintro next rfl
  obtain ⟨enough, hreturns⟩ := hsettles
  rcases writeLineRound_writing hanswers h hlt hheap hs (hreturns enough (Nat.le_refl _)) with
    ⟨proc, count, calls, heq, hpos, hcount, hheap', hadds, hwriting'⟩ | ⟨_, _, heq, _⟩ |
      ⟨_, _, _, heq, _⟩
  · cases heq
    exact ⟨⟨hheap', calls, hadds, hwriting'⟩, by dsimp only; omega⟩
  · cases heq
  · cases heq

/-- Writing a line comes back, since every write takes some bytes. -/
theorem writeLine_returns (hanswers : os.Answers) {proc : Process (Logged σ)}
    (h : proc.heap.HoldsString p text) (hlt : text.length < 2 ^ 64) :
    ∃ proc' ok, Settles (fun fuel => aesdsocketWriteLine os.logged fuel fd proc (some p))
      (.ok (proc', ok)) := by
  -- what is left to write goes down with every round
  have hloop : ∃ result, LoopSettles (fun fuel => writeLineRound os.logged fuel fd (some p))
      (⟨os.logged.startWriting proc.state, proc.heap⟩, text.length) (.ok result) :=
    LoopSettles.total
      (fun s : Process (Logged σ) × Nat => s.1.heap = proc.heap ∧
        ∃ calls, Adds (os.logged.startWriting proc.state) s.1.state calls ∧
          Writing text fd s.2 calls)
      (fun s => s.2) (fun _ hs => writeLineRound_lowers hanswers h hlt hs.1 hs.2)
      ⟨rfl, [], .refl _, Nat.le_refl _, rfl, by rw [Nat.sub_self]; rfl⟩
  obtain ⟨⟨last, done⟩, hloop⟩ := hloop
  obtain ⟨cells, hcells, hlength⟩ := h.exists_strlen
  unfold aesdsocketWriteLine
  simp only [hcells, Exec.ok_bind, hlength]
  cases done with
  | true => exact ⟨_, _, hloop.settles.bind (Settles.const _)⟩
  | false => exact ⟨_, _, hloop.settles.bind (Settles.const _)⟩

end

end Aesd
