import Aesd.Driver.FailedWrite

/-!
# No block is lost or freed twice

As long as `krealloc` does not fail, the live blocks are the ones that the device
points to: every way through a write hands a block on, keeps it or releases it.
So unloading the module finds all of them, each in one place.
-/

namespace Aesd

open CSem Transition

/-- The device points to every live block. -/
def Kernel.Accounted (k : Kernel) : Prop :=
  ∀ p, (k.heap.block? p).isSome → p ∈ k.owned k.dev.buffer.entries

theorem Kernel.init_accounted : Kernel.init.Accounted := by
  intro p hlive
  cases hlive

theorem Kernel.mem_owned {k : Kernel} {es : List BufferEntry} {p : Ptr} :
    p ∈ k.owned es ↔ p ∈ entryPtrs es ∨ k.dev.unterminatedBuffptr = some p := by
  rw [owned, List.mem_append, Option.mem_toList]

section

variable {k k' : Kernel} {es : List BufferEntry} {data : List UInt8} {heap released : Heap}
  {p q : Ptr}

/-- Once a write has its bytes, only its own block is live besides those of the
entries. -/
theorem Staged.live (hstaged : Staged k es data heap p) (h : k.Stores es) (hall : k.Accounted)
    (hlive : (heap.block? q).isSome) (hne : q ≠ p) : q ∈ entryPtrs es := by
  rw [hstaged.others q hne] at hlive
  split at hlive
  next => cases hlive
  next hnot =>
    have howned := hall q hlive
    rw [h.entries_eq] at howned
    exact (Kernel.mem_owned.mp howned).resolve_right fun heq => hnot heq.symm

/-- When the device points to the block of the write, nothing is lost. -/
theorem Staged.accounted (hstaged : Staged k es data heap p) (h : k.Stores es) (hall : k.Accounted)
    (hheap : k'.heap = heap) (hbuffer : k'.dev.buffer = k.dev.buffer)
    (hptr : k'.dev.unterminatedBuffptr = some p) : k'.Accounted := by
  intro q hlive
  rw [hheap] at hlive
  rw [Kernel.mem_owned, hbuffer, h.entries_eq, hptr]
  by_cases hne : q = p
  · exact Or.inr (congrArg some hne.symm)
  · exact Or.inl (hstaged.live h hall hlive hne)

/-- A write leaves no live block that the device does not point to, unless
`krealloc` fails. -/
theorem WriteEffect.accounted {outcome : WriteOutcome} {buf : List UInt8} {fPos : Int}
    {reply : Reply} (heffect : WriteEffect k es outcome buf fPos k' reply) (h : k.Stores es)
    (hall : k.Accounted) (hmet : outcome.locked = true → buf ≠ [] → outcome.krealloc ≠ .null) :
    k'.Accounted := by
  cases heffect with
  | interrupted => exact hall
  | empty => exact hall
  | noMemory hlocked hbuf hanswer => exact absurd hanswer (hmet hlocked hbuf)
  | faultPending _ _ _ _ _ heap p hstaged => exact hstaged.accounted h hall rfl rfl rfl
  | faultEmpty _ _ _ _ _ heap released p hstaged hfree =>
      -- the block that `krealloc` made is gone again
      intro q hlive
      have hreleased : heap.freeNonNull (some p) = .ok released := hfree
      obtain ⟨hne, hlive⟩ := Heap.live_of_freeNonNull hreleased hlive
      rw [Kernel.mem_owned, h.entries_eq]
      exact Or.inl (hstaged.live h hall hlive fun heq => hne (congrArg some heq.symm))
  | extended _ _ _ _ _ heap p hstaged => exact hstaged.accounted h hall rfl rfl rfl
  | committed _ _ _ _ _ heap released p hstaged hfree =>
      intro q hlive
      obtain ⟨hevicted, hlive⟩ := Heap.live_of_freeNonNull hfree hlive
      obtain ⟨hring, hold⟩ := h.ring.addEntry (commandEntry k p buf)
      rw [Kernel.mem_owned, hring.entries_eq]
      left
      have hmem : q ∈ entryPtrs (es ++ [commandEntry k p buf]) := by
        rw [entryPtrs_append, List.mem_append]
        by_cases hne : q = p
        · exact Or.inr (by simp [commandEntry, hne])
        · exact Or.inl (hstaged.live h hall hlive hne)
      -- the pushed entries are these without the evicted one
      rw [hold] at hevicted
      unfold BoundedQueue.push at hevicted ⊢
      split
      next => exact hmem
      next hfull =>
        rw [if_neg hfull] at hevicted
        cases es with
        | nil => exact absurd (Nat.zero_lt_succ 9) hfull
        | cons oldest others =>
            obtain ⟨r, hr, _⟩ := h.block oldest List.mem_cons_self
            rw [List.cons_append, entryPtrs_cons_some hr] at hmem
            have hne : q ≠ r := fun heq => hevicted (heq ▸ hr)
            exact (List.mem_cons.mp hmem).resolve_left hne

/-- The raw slots point to the blocks of the stored entries, in some order. -/
theorem entryPtrs_slots_perm {buffer : CircularBuffer} (h : buffer.Represents es) :
    (entryPtrs buffer.entry.toList).Perm (entryPtrs es) := by
  have hnull : (List.replicate (10 - es.length) BufferEntry.null).filterMap BufferEntry.buffptr =
      [] := by
    apply List.filterMap_eq_nil_iff.mpr
    intro e hmem
    rw [List.eq_of_mem_replicate hmem]
    rfl
  have hperm := h.slots_perm.filterMap BufferEntry.buffptr
  rwa [List.filterMap_append, hnull, List.append_nil] at hperm

/-- Releasing the blocks of entries is releasing those they point to. -/
theorem foldlM_freeNonNull (entries : List BufferEntry) (heap : Heap) :
    entries.foldlM (fun heap entry => heap.freeNonNull entry.buffptr) heap =
      (entryPtrs entries).foldlM Heap.free heap := by
  induction entries generalizing heap with
  | nil => rfl
  | cons e entries ih =>
      rw [List.foldlM_cons]
      cases hptr : e.buffptr with
      | none =>
          have hskip : entryPtrs (e :: entries) = entryPtrs entries :=
            List.filterMap_cons_none hptr
          rw [hskip, ← ih]
          rfl
      | some p =>
          rw [entryPtrs_cons_some hptr, List.foldlM_cons]
          exact congrArg _ (funext ih)

/-- Unloading releases the owned blocks one after the other. -/
theorem aesdCleanupModule_eq (h : k.Stores es) :
    ∃ freed : List Ptr, freed.Perm (k.owned es) ∧ aesdCleanupModule k = freed.foldlM Heap.free k.heap := by
  refine ⟨k.dev.unterminatedBuffptr.toList ++ entryPtrs k.dev.buffer.entry.toList, ?_, ?_⟩
  · exact List.perm_append_comm.trans ((entryPtrs_slots_perm h.ring).append_right _)
  · unfold aesdCleanupModule
    rw [List.foldlM_append]
    simp only [foldlM_freeNonNull]
    cases k.dev.unterminatedBuffptr with
    | none => rfl
    | some p =>
        have hsingle : [p].foldlM Heap.free k.heap = k.heap.free p := by
          rw [List.foldlM_cons]
          exact bind_pure _
        rw [Option.toList_some, hsingle]
        rfl

end

/-- A write does not meet a failing `krealloc`. -/
def Request.KreallocMet : Request → Prop
  | .write outcome buf => outcome.locked = true → buf ≠ [] → outcome.krealloc ≠ .null
  | _ => True

theorem Request.KreallocMet.safe {request : Request} (h : request.KreallocMet) (k : Kernel) :
    request.KreallocSafe k := by
  cases request with
  | write outcome buf => exact fun hlocked hbuf hnull => absurd hnull (h hlocked hbuf)
  | read => trivial
  | llseek => trivial
  | ioctl => trivial

/-- A request to the device comes back. -/
theorem Kernel.Stores.aesdIoctl_returns {k : Kernel} {es : List BufferEntry} (h : k.Stores es)
    (hsum : (entrySizes es).sum < 2 ^ 63) (seek : FixedSizeLlseek) (locked : Bool) (cmd : Nat)
    (arg : Option AesdSeekto) (fPos : Int) :
    ∃ reply, aesdIoctl seek k locked cmd arg fPos = .ok reply := by
  unfold aesdIoctl aesdIocseekto
  simp only [h.ring.findFposForEntryOffset hsum, Exec.ok_bind]
  split
  · split
    · split
      · exact ⟨_, rfl⟩
      · split <;> exact ⟨_, rfl⟩
    · exact ⟨_, rfl⟩
  · exact ⟨_, rfl⟩

namespace Driver

variable {seek : FixedSizeLlseek} {d d' : Driver} {event : Event} {events : List Event}

theorem Step.accounted {es : List BufferEntry} (hstep : Step seek d event d')
    (h : d.kernel.Stores es) (hall : d.kernel.Accounted) (hmet : event.request.KreallocMet) :
    d'.kernel.Accounted := by
  by_cases hwrite : ∃ outcome buf, event.request = .write outcome buf
  · obtain ⟨outcome, buf, hrequest⟩ := hwrite
    rw [hrequest] at hmet
    exact (hstep.write_effect h hrequest).accounted h hall hmet
  · rw [hstep.kernel_eq fun outcome buf hrequest => hwrite ⟨outcome, buf, hrequest⟩]
    exact hall

theorem accounted_of_run
    (hrun : Run (fun d event d' => event.request.KreallocMet ∧ Step seek d event d') init events d) :
    (∃ es, d.kernel.Stores es) ∧ d.kernel.Accounted := by
  refine hrun.invariant (fun d => (∃ es, d.kernel.Stores es) ∧ d.kernel.Accounted) ?_
    ⟨⟨[], Kernel.init_stores⟩, Kernel.init_accounted⟩
  rintro d event d' ⟨⟨es, h⟩, hall⟩ ⟨hmet, hstep⟩
  exact ⟨hstep.stores ⟨es, h⟩, hstep.accounted h hall hmet⟩

/-- Every admissible call on a device that holds a log returns. -/
theorem call_returns {es : List BufferEntry} {log : Log} (h : d.kernel.Holds es log)
    (htotal : d.kernel.heap.total < 2 ^ 63) {file : Nat} {request : Request}
    (hadmissible : request.Admissible (d.fPos file)) :
    ∃ d' reply, d.call seek file request = .ok (d', reply) := by
  have hserve : ∃ kernel reply, request.serve seek d.kernel (d.fPos file) = .ok (kernel, reply) := by
    cases request with
    | read outcome count =>
        obtain ⟨hlower, hupper⟩ := hadmissible
        obtain ⟨reply, hread⟩ := aesdRead_returns h (h.length_contents_lt htotal) outcome count
          hlower (by omega)
        exact ⟨_, reply, by rw [Request.serve, hread]; rfl⟩
    | write outcome buf =>
        obtain ⟨hlower, hupper⟩ := hadmissible
        have hlength : buf.length < 2 ^ 63 := by omega
        obtain ⟨kernel, reply, hwrite, _⟩ :=
          h.toStores.aesdWrite_effect outcome hlength (d.fPos file)
        exact ⟨kernel, reply, hwrite⟩
    | llseek locked offset whence => exact ⟨_, _, rfl⟩
    | ioctl locked cmd arg =>
        have hsum := Nat.lt_of_le_of_lt h.entrySizes_le_total htotal
        obtain ⟨reply, hioctl⟩ := h.toStores.aesdIoctl_returns hsum seek locked cmd arg (d.fPos file)
        exact ⟨_, reply, by rw [Request.serve, hioctl]; rfl⟩
  obtain ⟨kernel, reply, hserve⟩ := hserve
  exact ⟨_, reply, by rw [call, hserve]; rfl⟩

/-- In every state reached without a failing `krealloc`, the live blocks are
exactly the unterminated buffer and those of the stored entries, each once, an
unterminated buffer is there if and only if bytes are, every further call
returns, and unloading releases each live block once. -/
theorem buffers_owned (seek : FixedSizeLlseek) {events : List Event} {d : Driver}
    (hrun : Run (Step seek) init events d)
    (hmet : ∀ event ∈ events, event.request.KreallocMet) :
    (∀ p, (d.kernel.heap.block? p).isSome ↔ p ∈ d.kernel.owned d.kernel.dev.buffer.entries) ∧
      (d.kernel.owned d.kernel.dev.buffer.entries).Nodup ∧
      (∀ e ∈ d.kernel.dev.buffer.entries, e.buffptr.isSome) ∧
      (d.kernel.dev.unterminatedBuffptr.isSome ↔ 0 < d.kernel.dev.unterminatedSize) ∧
      (∀ file request, request.Admissible (d.fPos file) →
        ∃ d' reply, d.call seek file request = .ok (d', reply)) ∧
      ∃ (freed : List Ptr) (heap : Heap), freed.Perm (d.kernel.owned d.kernel.dev.buffer.entries) ∧
        aesdCleanupModule d.kernel = freed.foldlM Heap.free d.kernel.heap ∧
        aesdCleanupModule d.kernel = .ok heap ∧ ∀ p, heap.block? p = none := by
  have hmetRun := hrun.restrict hmet
  obtain ⟨_, hall⟩ := accounted_of_run hmetRun
  have hsafe : Run (SafeStep seek) init events d :=
    hmetRun.mono fun s event _ hstep => ⟨hstep.2, hstep.1.safe s.kernel⟩
  obtain ⟨es, h⟩ := holds_of_safeRun hsafe
  have hentries : d.kernel.dev.buffer.entries = es := h.toStores.entries_eq
  have hlive : ∀ p, p ∈ d.kernel.owned es → (d.kernel.heap.block? p).isSome := by
    intro p hmem
    rcases Kernel.mem_owned.mp hmem with hmem | hptr
    · exact h.live_of_mem hmem
    · exact h.live_unterminated hptr
  have hkept := (failed_write_intact seek hsafe).1
  obtain ⟨freed, hperm, hcleanup⟩ := aesdCleanupModule_eq h.toStores
  obtain ⟨heap, hfreed, hdead, hothers⟩ := Heap.free_all (hperm.nodup_iff.mpr h.nodup)
    fun p hmem => hlive p (hperm.mem_iff.mp hmem)
  unfold Kernel.Accounted at hall
  rw [hentries] at hall ⊢
  refine ⟨fun p => ⟨hall p, hlive p⟩, h.nodup, h.buffptr_isSome, ?_, ?_, freed, heap, hperm,
    hcleanup, hcleanup.trans hfreed, ?_⟩
  · constructor
    · intro hsome
      obtain ⟨p, hptr⟩ := Option.isSome_iff_exists.mp hsome
      exact (h.unterminated p hptr).1
    · intro hpos
      exact Option.isSome_iff_ne_none.mpr (hkept hpos)
  · intro file request hadmissible
    exact call_returns h (total_of_run hrun) hadmissible
  · intro p
    by_cases hmem : p ∈ freed
    · exact hdead p hmem
    · rw [hothers p hmem]
      cases hblock : d.kernel.heap.block? p with
      | none => rfl
      | some cells =>
          have howned := hall p (Option.isSome_iff_exists.mpr ⟨cells, hblock⟩)
          exact absurd (hperm.mem_iff.mpr howned) hmem

/-- With "a\n" stored and "b" pending there are two blocks, and unloading releases
both. -/
theorem buffers_owned_pending : ∃ events d, Run (Step .reference) init events d ∧
    d.kernel.dev.unterminatedSize = 1 ∧
    (∀ p, (d.kernel.heap.block? p).isSome ↔ p ∈ [0, 1]) ∧
    ∃ (freed : List Ptr) (heap : Heap), freed.Perm [0, 1] ∧
      aesdCleanupModule d.kernel = freed.foldlM Heap.free d.kernel.heap ∧
      aesdCleanupModule d.kernel = .ok heap ∧ ∀ p, heap.block? p = none := by
  let pending : Driver := ⟨⟨⟨[some [some 97, some 10], some [some 98]]⟩,
    ⟨some 1, 1, oneLine.kernel.dev.buffer⟩⟩, Function.update oneLine.fPos 0 3⟩
  have hwrite : (Request.write ⟨true, .moved, 1⟩ [98]).serve .reference oneLine.kernel
      (oneLine.fPos 0) = .ok (pending.kernel, ⟨1, 3, [], some [98]⟩) := by decide +kernel
  have hstep : Step .reference oneLine
      ⟨0, .write ⟨true, .moved, 1⟩ [98], ⟨1, 3, [], some [98]⟩⟩ pending :=
    Step.of_serve oneLine 0 (by decide) hwrite (by decide)
  have hrun := Run.snoc (Run.single (oneLine_step .reference)) hstep
  have hmet : ∀ event ∈ [oneLineEvent] ++
      [⟨0, .write ⟨true, .moved, 1⟩ [98], ⟨1, 3, [], some [98]⟩⟩], event.request.KreallocMet := by
    intro event hmem
    rcases List.mem_append.mp hmem with hmem | hmem
    · rw [List.mem_singleton.mp hmem]
      exact fun _ _ => Resize.noConfusion
    · rw [List.mem_singleton.mp hmem]
      exact fun _ _ => Resize.noConfusion
  have howned : pending.kernel.owned pending.kernel.dev.buffer.entries = [0, 1] := by decide +kernel
  obtain ⟨hlive, _, _, _, _, hcleanup⟩ := buffers_owned .reference hrun hmet
  rw [howned] at hlive hcleanup
  exact ⟨_, pending, hrun, rfl, hlive, hcleanup⟩

end Driver

end Aesd
