import Aesd.Driver.DebugCopy

/-!
# Error reporting

A call that reaches the device is negative when a kernel service failed, and
otherwise returns the number of bytes by which it moves the position. The one
request that is refused although nothing failed is a write of no bytes, and a call
whose debug copy does not fit gives no report at all.
-/

namespace Aesd

open CSem Transition

/-- The number of bytes that a read asks `copy_to_user` to copy. -/
def readCount (k : Kernel) (count : Nat) (fPos : Int) : Exec Nat := do
  match ← readSource k fPos with
  | none => .ok 0
  | some (_, size, currentEntryByte) => .ok (finalCount count size currentEntryByte)

/-- A service that a write of these bytes calls fails: `krealloc`, or else
`copy_from_user`. -/
def WriteOutcome.Fails (outcome : WriteOutcome) (buf : List UInt8) : Prop :=
  buf ≠ [] ∧ (outcome.krealloc = .null ∨ outcome.copied < buf.length)

/-- The reply to a request of `count` bytes says whether something failed, and
the position moves by what is returned. -/
structure Reply.Reports (reply : Reply) (failed : Prop) (count : Nat) (fPos : Int) : Prop where
  negative_iff : reply.retval < 0 ↔ failed
  retval_le : 0 ≤ reply.retval → reply.retval ≤ count
  advances : 0 ≤ reply.retval → reply.fPos = fPos + reply.retval
  stays : reply.retval < 0 → reply.fPos = fPos

theorem Reply.reports_of_failed {reply : Reply} {failed : Prop} (hfailed : failed) {fPos : Int}
    (hneg : reply.retval < 0) (hpos : reply.fPos = fPos) (count : Nat) :
    reply.Reports failed count fPos where
  negative_iff := iff_of_true hneg hfailed
  retval_le hnonneg := absurd hneg (Int.not_lt.mpr hnonneg)
  advances hnonneg := absurd hneg (Int.not_lt.mpr hnonneg)
  stays _ := hpos

theorem Reply.reports_of_served {reply : Reply} {failed : Prop} (hserved : ¬ failed) {fPos : Int}
    {served count : Nat} (hretval : reply.retval = served) (hle : served ≤ count)
    (hpos : reply.fPos = fPos + served) : reply.Reports failed count fPos := by
  have hnonneg : ¬ reply.retval < 0 := hretval ▸ Int.not_lt.mpr (Int.natCast_nonneg served)
  refine ⟨iff_of_false hnonneg hserved, fun _ => ?_, fun _ => ?_, fun hneg => absurd hneg hnonneg⟩
  · exact hretval ▸ Int.ofNat_le.mpr hle
  · rw [hpos, hretval]

namespace Kernel.Holds

variable {k : Kernel} {es : List BufferEntry} {log : Log}

theorem readCount_eq (h : k.Holds es log) (hfit : log.contents.length < 2 ^ 63) (count : Nat)
    {fPos : Nat} (hlt : fPos < 2 ^ 63) :
    readCount k count fPos = .ok (log.readAt count fPos).length := by
  unfold readCount
  rcases h.readSource_eq hfit hlt with ⟨hlocate, hsource⟩ | ⟨index, offset, p, hlocate, hsource, _⟩
  · rw [hsource, Log.readAt_of_none hlocate]
    rfl
  · rw [hsource, ← finalCount_eq hfit hlocate count]
    rfl

/-- A read reports whether `copy_to_user` left bytes uncopied. -/
theorem aesdRead_reports (h : k.Holds es log) (hfit : log.contents.length < 2 ^ 63)
    {outcome : ReadOutcome} (hlocked : outcome.locked = true) (count : Nat) {fPos : Nat}
    (hlt : fPos < 2 ^ 63) :
    ∃ wanted reply, readCount k count fPos = .ok wanted ∧
      aesdRead k outcome count fPos = .ok reply ∧
      reply.Reports (outcome.copied < wanted) count fPos := by
  refine ⟨_, _, h.readCount_eq hfit count hlt, h.aesdRead_eq hfit hlocked count hlt, ?_⟩
  by_cases hfault : outcome.copied < (log.readAt count fPos).length
  · rw [if_pos hfault]
    exact Reply.reports_of_failed hfault (show -eFault < 0 by decide) rfl count
  · rw [if_neg hfault]
    exact Reply.reports_of_served hfault rfl (log.length_readAt_le count fPos)
      (Int.natCast_add _ _)

/-- And it does so exactly when what it finds can be printed. -/
theorem aesdReadPrinted_reports_iff (h : k.Holds es log) (hfit : log.contents.length < 2 ^ 63)
    {outcome : ReadOutcome} (hlocked : outcome.locked = true) {count fPos : Nat}
    (hlt : fPos < 2 ^ 63) :
    (∃ wanted reply, readCount k count fPos = .ok wanted ∧
      aesdReadPrinted k outcome count fPos = .ok reply ∧
      reply.Reports (outcome.copied < wanted) count fPos) ↔ k.PrintableAt count fPos := by
  obtain ⟨wanted, reply, hwanted, hread, hreports⟩ := h.aesdRead_reports hfit hlocked count hlt
  have hsum : (entrySizes es).sum < 2 ^ 63 := by
    rw [Log.contents, List.length_append] at hfit
    rw [h.sum_entrySizes]
    omega
  rw [← h.toStores.printsString_iff hsum hlocked hlt hread]
  constructor
  · rintro ⟨_, _, _, hprinted, _⟩
    obtain ⟨hread', hprints⟩ := aesdReadPrinted_eq_ok_iff.mp hprinted
    cases hread.symm.trans hread'
    exact hprints
  · intro hprints
    exact ⟨wanted, reply, hwanted, aesdReadPrinted_eq_ok_iff.mpr ⟨hread, hprints⟩, hreports⟩

end Kernel.Holds

/-- A write reports whether a service failed unless it has nothing to write. -/
theorem WriteEffect.reports_iff {k k' : Kernel} {es : List BufferEntry} {outcome : WriteOutcome}
    {buf : List UInt8} {fPos : Int} {reply : Reply}
    (heffect : WriteEffect k es outcome buf fPos k' reply) (hlocked : outcome.locked = true)
    (hlower : 0 ≤ fPos) (hupper : fPos + buf.length < 2 ^ 63) :
    reply.Reports (outcome.Fails buf) buf.length fPos ↔ buf ≠ [] := by
  have hused := Log.length_consumed_le buf
  cases heffect with
  | interrupted hnot =>
      rw [hlocked] at hnot
      cases hnot
  | empty _ hbuf =>
      refine iff_of_false (fun hreports => ?_) (not_not.mpr hbuf)
      exact (hreports.negative_iff.mp (show -eNoMem < 0 by decide)).1 hbuf
  | noMemory _ hbuf hanswer =>
      refine iff_of_true ?_ hbuf
      exact Reply.reports_of_failed ⟨hbuf, Or.inl hanswer⟩ (show -eNoMem < 0 by decide) rfl _
  | faultPending _ hbuf _ hcopied =>
      refine iff_of_true ?_ hbuf
      exact Reply.reports_of_failed ⟨hbuf, Or.inr hcopied⟩ (show -eFault < 0 by decide) rfl _
  | faultEmpty _ hbuf _ hcopied =>
      refine iff_of_true ?_ hbuf
      exact Reply.reports_of_failed ⟨hbuf, Or.inr hcopied⟩ (show -eFault < 0 by decide) rfl _
  | extended _ hbuf hanswer hcopied =>
      have hserved : ¬ outcome.Fails buf := fun hfails =>
        hfails.2.elim hanswer (Nat.not_lt.mpr hcopied)
      exact iff_of_true (Reply.reports_of_served hserved rfl (Nat.le_refl _)
        (s64_of_lt (by omega) (by omega))) hbuf
  | committed _ hbuf hanswer hcopied =>
      have hserved : ¬ outcome.Fails buf := fun hfails =>
        hfails.2.elim hanswer (Nat.not_lt.mpr hcopied)
      exact iff_of_true (Reply.reports_of_served hserved rfl hused
        (s64_of_lt (by omega) (by omega))) hbuf

namespace Driver

/-- In every state reached without a `krealloc` failing on pending bytes, a call with
its debug copy reports right (it is negative exactly when a kernel service failed,
and otherwise at most the count and the distance by which the position moves) if and
only if the bytes it copies can be printed and, for a write, there are any. -/
theorem error_reporting (seek : FixedSizeLlseek) {d : Driver} (hreach : SafelyReachable seek d) :
    (∀ (outcome : ReadOutcome) (count fPos : Nat), outcome.locked = true → fPos < 2 ^ 63 →
      ((∃ wanted reply, readCount d.kernel count fPos = .ok wanted ∧
          aesdReadPrinted d.kernel outcome count fPos = .ok reply ∧
          reply.Reports (outcome.copied < wanted) count fPos) ↔
        d.kernel.PrintableAt count fPos)) ∧
    ∀ (outcome : WriteOutcome) (buf : List UInt8) (fPos : Int), outcome.locked = true →
      (Request.write outcome buf).Admissible fPos →
      ((∃ k' reply, aesdWritePrinted d.kernel outcome buf fPos = .ok (k', reply) ∧
          reply.Reports (outcome.Fails buf) buf.length fPos) ↔
        buf ≠ [] ∧ (outcome.Copies buf → Printable buf)) := by
  obtain ⟨events, hrun⟩ := hreach
  obtain ⟨es, h⟩ := holds_of_safeRun hrun
  have hfit := h.length_contents_lt (total_of_run (run_of_safeRun hrun))
  constructor
  · intro outcome count fPos hlocked hlt
    exact h.aesdReadPrinted_reports_iff hfit hlocked hlt
  · intro outcome buf fPos hlocked hadmissible
    obtain ⟨hlower, hupper⟩ := hadmissible
    obtain ⟨k', reply, hreturns, heffect⟩ := h.toStores.aesdWrite_effect outcome
      (show buf.length < 2 ^ 63 by omega) fPos
    rw [← heffect.reports_iff hlocked hlower hupper, ← heffect.printsString_iff]
    constructor
    · rintro ⟨_, _, hprinted, hreports⟩
      obtain ⟨hwrite, hprints⟩ := aesdWritePrinted_eq_ok_iff.mp hprinted
      cases hreturns.symm.trans hwrite
      exact ⟨hreports, hprints⟩
    · rintro ⟨hreports, hprints⟩
      exact ⟨k', reply, aesdWritePrinted_eq_ok_iff.mpr ⟨hreturns, hprints⟩, hreports⟩

/-- With "a\n" stored, a read whose copy stops after one byte is an error and a
write whose copy succeeds is not. -/
theorem error_reporting_oneLine :
    (∃ reply, aesdReadPrinted oneLine.kernel ⟨true, 1⟩ 2 (0 : Nat) = .ok reply ∧
      reply.retval < 0) ∧
    ∃ k' reply, aesdWritePrinted oneLine.kernel ⟨true, .moved, 2⟩ [98, 10] 2 = .ok (k', reply) ∧
      ¬ reply.retval < 0 := by
  obtain ⟨hreads, hwrites⟩ := error_reporting .reference (oneLine_safelyReachable .reference)
  constructor
  · have hprintable : oneLine.kernel.PrintableAt 2 0 := by
      intro index offset hfound
      have hplace : Segments.locate (entrySizes oneLine.kernel.pieces) 0 = some (0, 0) := by
        decide +kernel
      obtain ⟨rfl, rfl⟩ := Prod.mk.inj (Option.some.inj (hplace.symm.trans hfound))
      exact Or.inr ⟨by decide +kernel, Or.inl (by decide +kernel)⟩
    obtain ⟨wanted, reply, hwanted, hread, hreports⟩ :=
      (hreads ⟨true, 1⟩ 2 0 rfl (by decide)).mpr hprintable
    have htwo : readCount oneLine.kernel 2 (0 : Nat) = .ok 2 := by decide +kernel
    obtain rfl := Except.ok.inj (hwanted.symm.trans htwo)
    exact ⟨reply, hread, hreports.negative_iff.mpr (by decide)⟩
  · obtain ⟨k', reply, hwrite, hreports⟩ := (hwrites ⟨true, .moved, 2⟩ [98, 10] 2 rfl
      (by decide)).mpr ⟨by decide, fun _ => Or.inl (by decide)⟩
    refine ⟨k', reply, hwrite, fun hneg => ?_⟩
    exact (hreports.negative_iff.mp hneg).2.elim (by decide) (by decide)

/-- A write of no bytes is answered with an error although nothing failed. -/
theorem error_reporting_emptyWrite : SafelyReachable .reference init ∧
    (Request.write ⟨true, .moved, 0⟩ []).Admissible 0 ∧
    ∃ k' reply, aesdWritePrinted init.kernel ⟨true, .moved, 0⟩ [] 0 = .ok (k', reply) ∧
      reply.retval = -eNoMem ∧ ¬ WriteOutcome.Fails ⟨true, .moved, 0⟩ [] :=
  ⟨⟨[], .nil _⟩, by decide, _, _, rfl, rfl, fun hfails => hfails.1 rfl⟩

end Driver

end Aesd
