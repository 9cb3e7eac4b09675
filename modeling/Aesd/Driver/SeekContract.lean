import Aesd.Driver.Runs

/-!
# The seek command

The command names a stored entry and a byte inside it. The driver takes the
entry index modulo 256 on its way to the ring, so an index that is out of range
can still name an entry there.
-/

namespace Aesd

open CSem Transition

/-- The index is that of a stored entry and the offset lies inside it. -/
def NamesByte (es : List BufferEntry) (index offset : Nat) : Prop :=
  ∃ hindex : index < es.length, offset < es[index].size

instance (es : List BufferEntry) (index offset : Nat) : Decidable (NamesByte es index offset) :=
  inferInstanceAs (Decidable (∃ hindex : index < es.length, offset < es[index].size))

/-- The reply to a seek: the position of the named byte, or an invalid argument. -/
def seekReply (es : List BufferEntry) (index offset : Nat) (fPos : Int) : Reply :=
  if NamesByte es index offset then
    let target := Segments.position (entrySizes es) index offset
    { retval := target, fPos := target }
  else { retval := -eInval, fPos := fPos }

theorem position_lt_of_namesByte {es : List BufferEntry} {index offset : Nat}
    (hnames : NamesByte es index offset) :
    Segments.position (entrySizes es) index offset < (entrySizes es).sum := by
  obtain ⟨hindex, hoffset⟩ := hnames
  exact Segments.position_lt_sum (by simpa using hindex) (by rwa [getElem_entrySizes hindex])

theorem u8_eq_mod (index : Nat) : u8 index = index % 256 := by
  unfold u8
  omega

/-- What the driver does with a seek command. -/
theorem Kernel.Stores.aesdIoctl_eq {k : Kernel} {es : List BufferEntry} (h : k.Stores es)
    (hsum : (entrySizes es).sum < 2 ^ 63) (seek : FixedSizeLlseek) (seekto : AesdSeekto) (fPos : Int) :
    aesdIoctl seek k true aesdcharIocseekto (some seekto) fPos =
      .ok (seekReply es (seekto.writeCmd.toNat % 256) seekto.writeCmdOffset.toNat fPos) := by
  have hsize : s64 (k.dev.buffer.size : Int) = (entrySizes es).sum := by
    rw [h.ring.size_eq h.buffptr_isSome (by omega), s64_natCast hsum]
  have haccept := fun target : Int => seek.accept fPos target .set (entrySizes es).sum
  unfold aesdIoctl aesdIocseekto
  rw [if_pos rfl]
  generalize seek.run = run at haccept ⊢
  simp only [u8_eq_mod, h.ring.findFposForEntryOffset hsum, Exec.ok_bind, hsize]
  rw [if_neg (by decide)]
  unfold seekReply
  by_cases hnames : NamesByte es (seekto.writeCmd.toNat % 256) seekto.writeCmdOffset.toNat
  · have hlt := position_lt_of_namesByte hnames
    have hexists : ∃ hindex : seekto.writeCmd.toNat % 256 < es.length,
        seekto.writeCmdOffset.toNat < es[seekto.writeCmd.toNat % 256].size := hnames
    rw [if_pos hnames, if_pos hexists, if_pos (Int.natCast_nonneg _),
      haccept _ (Int.natCast_nonneg _) (Int.ofNat_le.mpr (Nat.le_of_lt hlt))]
    rfl
  · have hnot : ¬ ∃ hindex : seekto.writeCmd.toNat % 256 < es.length,
        seekto.writeCmdOffset.toNat < es[seekto.writeCmd.toNat % 256].size := hnames
    rw [if_neg hnames, if_neg hnot, if_neg (by decide)]

/-- Replies to different indices agree only when neither names a byte. -/
theorem seekReply_truncated {es : List BufferEntry} (hlength : es.length ≤ 10) (offset : Nat)
    (fPos : Int) {index : Nat} (hlarge : 256 ≤ index) :
    seekReply es (index % 256) offset fPos = seekReply es index offset fPos ↔
      ¬ NamesByte es (index % 256) offset := by
  have hnot : ¬ NamesByte es index offset := by
    rintro ⟨hindex, _⟩
    omega
  unfold seekReply
  rw [if_neg hnot]
  by_cases hnames : NamesByte es (index % 256) offset
  · rw [if_pos hnames]
    refine iff_of_false ?_ (not_not.mpr hnames)
    intro heq
    have hretval := congrArg Reply.retval heq
    simp only [eInval] at hretval
    omega
  · rw [if_neg hnames]
    exact iff_of_true rfl hnames

namespace Driver

/-- In every reachable state the seek command finds the byte it names, or is
refused when it names none, exactly if its index fits in eight bits or names no
byte modulo 256 either. -/
theorem seek_contract_iff (seek : FixedSizeLlseek) {d : Driver} (hreach : Reachable seek d)
    (seekto : AesdSeekto) (fPos : Int) :
    aesdIoctl seek d.kernel true aesdcharIocseekto (some seekto) fPos =
        .ok (seekReply d.kernel.dev.buffer.entries seekto.writeCmd.toNat
          seekto.writeCmdOffset.toNat fPos) ↔
      seekto.writeCmd.toNat < 256 ∨
        ¬ NamesByte d.kernel.dev.buffer.entries (seekto.writeCmd.toNat % 256)
          seekto.writeCmdOffset.toNat := by
  obtain ⟨events, hrun⟩ := hreach
  obtain ⟨es, h⟩ := stores_of_run hrun
  have hsum := Nat.lt_of_le_of_lt h.entrySizes_le_total (total_of_run hrun)
  rw [h.entries_eq, h.aesdIoctl_eq hsum, Except.ok.injEq]
  rcases Nat.lt_or_ge seekto.writeCmd.toNat 256 with hsmall | hlarge
  · rw [Nat.mod_eq_of_lt hsmall]
    exact iff_of_true rfl (Or.inl hsmall)
  · rw [seekReply_truncated h.ring.length_le _ fPos hlarge]
    constructor
    · exact Or.inr
    · rintro (hsmall | hnot)
      · omega
      · exact hnot

theorem seek_contract_oneLine :
    aesdIoctl .reference oneLine.kernel true aesdcharIocseekto (some ⟨0, 1⟩) 7 =
      .ok { retval := 1, fPos := 1 } := by
  rw [(seek_contract_iff .reference (oneLine_reachable .reference) ⟨0, 1⟩ 7).mpr (Or.inl (by decide))]
  decide +kernel

/-- Entry 256 does not exist, but the command moves to entry 0. -/
theorem seek_contract_truncated : ∃ d, Reachable .reference d ∧
    d.kernel.dev.buffer.entries.length = 1 ∧
    aesdIoctl .reference d.kernel true aesdcharIocseekto (some ⟨256, 0⟩) 7 =
      .ok { retval := 0, fPos := 0 } ∧
    seekReply d.kernel.dev.buffer.entries 256 0 7 = { retval := -eInval, fPos := 7 } :=
  ⟨oneLine, oneLine_reachable .reference, by decide +kernel, by decide +kernel, by decide +kernel⟩

end Driver

end Aesd
