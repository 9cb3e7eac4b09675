import Mathlib.Data.List.Basic
import Mathlib.Data.List.DropRight
import Mathlib.Tactic.Common

/-! # Reading a stream through a window

A stream grows at its end while its front is given up, and only what lies
behind that front can still be read. A reader counts its position from the start
of the window, so whatever is given up moves it on by as much: it never sees an
element twice or out of order, and it misses as many as were given up.
-/

namespace StreamWindow

variable {α : Type}

/-- What a reader has received of a stream when it stands at a position of the
window behind the `gone` first elements. -/
structure Received (stream received : List α) (gone position : Nat) : Prop where
  sublist : received.Sublist (stream.take (gone + position))
  length_eq : received.length = position

namespace Received

variable {stream received : List α} {gone position : Nat}

theorem start (stream : List α) (gone : Nat) : Received stream [] gone 0 where
  sublist := List.nil_sublist _
  length_eq := rfl

/-- The stream grows, and the window gives up some more of its front. -/
theorem grow (h : Received stream received gone position) (more : List α) {gone' : Nat}
    (hle : gone ≤ gone') : Received (stream ++ more) received gone' position where
  sublist := by
    have hstream : stream.take (gone + position) <+: (stream ++ more).take (gone' + position) := by
      apply List.prefix_take_iff.mpr
      refine ⟨(List.take_prefix _ _).trans (List.prefix_append _ _), ?_⟩
      exact (List.length_take_le _ _).trans (Nat.add_le_add_right hle position)
    exact h.sublist.trans hstream.sublist
  length_eq := h.length_eq

/-- The reader takes what comes next in the window. -/
theorem read (h : Received stream received gone position) {bytes : List α}
    (hbytes : bytes <+: stream.drop (gone + position)) :
    Received stream (received ++ bytes) gone (position + bytes.length) where
  sublist := by
    rw [← Nat.add_assoc, List.take_add, ← List.prefix_iff_eq_take.mp hbytes]
    exact h.sublist.append (List.Sublist.refl bytes)
  length_eq := by rw [List.length_append, h.length_eq]

/-- Before anything is given up the reader has the start of the stream. -/
theorem isPrefix (h : Received stream received 0 position) : received <+: stream := by
  have hsublist := h.sublist
  rw [Nat.zero_add] at hsublist
  have hle : (stream.take position).length ≤ received.length := by
    rw [h.length_eq]
    exact List.length_take_le _ _
  rw [hsublist.eq_of_length_le hle]
  exact List.take_prefix _ _

end Received

/-- A longer list has a longer front before its last elements. -/
theorem rdrop_isPrefix {front whole : List α} (hfront : front <+: whole) (count : Nat) :
    front.rdrop count <+: whole.rdrop count := by
  obtain ⟨back, rfl⟩ := hfront
  rw [List.rdrop, List.rdrop]
  apply List.prefix_take_iff.mpr
  refine ⟨(List.take_prefix _ _).trans (List.prefix_append _ _), ?_⟩
  rw [List.length_take, List.length_append]
  omega

end StreamWindow
