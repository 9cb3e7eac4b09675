import Aesd.Monitor.Abandoned
import Aesd.Server.Clients

/-!
# Runs of the clients

Where a client is in its call, how many steps the call has left, and what lets the
clients go on. Without failures somebody always can. A client whose write has
failed keeps its place at the monitor and makes no other step.
-/

namespace Aesd

open CSem Tally Transition

/-- The section with which a call enters the monitor. -/
def Role.entry : Role → Section
  | .reader => .startReading
  | .writer => .startWriting

/-! ## Where a thread inside a call is -/

theorem Place.wakeBy_ne_outside {place : Place} (hne : place ≠ .outside)
    (signal : Option Condition) : place.wakeBy signal ≠ .outside := by
  rcases signal with _ | _ | _ <;> rcases place with _ | ⟨_ | _⟩ | ⟨_ | _⟩ | _ | ⟨_ | _⟩ <;>
    simp_all [wakeBy, wake]

/-- A broadcast means nothing to a thread that does not sleep. -/
theorem Place.wakeBy_eq {place : Place} (hawake : ∀ role, place ≠ .asleep role)
    (signal : Option Condition) : place.wakeBy signal = place := by
  cases place with
  | asleep role => exact absurd rfl (hawake role)
  | _ => rcases signal with _ | _ | _ <;> rfl

namespace Threads

variable {ι : Type} [DecidableEq ι] {s s' : Threads ι} {i j : ι} {act : Section}

theorem Step.place_eq (hstep : Step s (i, act) s') (hne : j ≠ i)
    (hawake : ∀ role, s.place j ≠ .asleep role) : s'.place j = s.place j := by
  obtain ⟨place, monitor, signal, rfl, _⟩ := hstep.moves
  rw [move_place_of_ne s hne]
  exact Place.wakeBy_eq hawake signal

theorem Step.ne_outside (hstep : Step s (i, act) s') (hact : act ≠ .stop) :
    s'.place i ≠ .outside := by
  obtain ⟨place, monitor, signal, rfl, hmoves⟩ := hstep.moves
  rw [move_place_self]
  apply Place.wakeBy_ne_outside
  generalize s.place i = old at hmoves
  cases hmoves with
  | readStops => exact absurd rfl hact
  | writeStops => exact absurd rfl hact
  | _ => exact Place.noConfusion

/-- Who stops was active, and is outside then. -/
theorem Step.of_stop (hstep : Step s (i, .stop) s') :
    (∃ role, s.place i = .active role) ∧ s'.place i = .outside := by
  obtain ⟨place, monitor, signal, rfl, hmoves⟩ := hstep.moves
  rw [move_place_self]
  generalize s.place i = old at hmoves
  cases hmoves with
  | readStops => exact ⟨⟨_, rfl⟩, Place.wakeBy_outside _⟩
  | writeStops => exact ⟨⟨_, rfl⟩, Place.wakeBy_outside _⟩

theorem Step.ne_outside_of_ne (hstep : Step s (i, act) s') (hne : j ≠ i)
    (hj : s.place j ≠ .outside) : s'.place j ≠ .outside := by
  obtain ⟨place, monitor, signal, rfl, _⟩ := hstep.moves
  rw [move_place_of_ne s hne]
  exact Place.wakeBy_ne_outside hj signal

end Threads

namespace Clients

variable {ι : Type} [DecidableEq ι] {s s' : Clients ι} {i : ι}

/-- What a step of a client is for the monitor: one section, or none at all. -/
theorem Step.threads {act : ClientAct} (hstep : Step s (i, act) s') :
    s'.threads = s.threads ∨ ∃ act, Threads.Step s.threads (i, act) s'.threads := by
  cases hstep with
  | enters houtside hact hstep => exact Or.inr ⟨_, hstep⟩
  | waits hact hstep => exact Or.inr ⟨_, hstep⟩
  | stops hinside hplace hcall hstop hstep => exact Or.inr ⟨_, hstep⟩
  | abandons => exact Or.inl rfl

theorem reachable_of_run {events : List (ι × ClientAct)} (hrun : Run Step init events s) :
    s.threads.Reachable := by
  refine hrun.invariant (fun s => s.threads.Reachable) ?_ ⟨[], .nil _⟩
  rintro s ⟨i, act⟩ s' ⟨front, hfront⟩ hstep
  rcases hstep.threads with heq | ⟨act, hstep⟩
  · rw [heq]
    exact ⟨front, hfront⟩
  · exact ⟨_, .snoc hfront hstep⟩

/-- A thread inside a call is past the entry. -/
def Entered (s : Clients ι) : Prop := ∀ i, s.inside i = true → s.threads.place i ≠ .outside

theorem Entered.step {event : ι × ClientAct} (h : Entered s) (hstep : Step s event s') :
    Entered s' := by
  intro j hj
  cases hstep with
  | @enters i act threads houtside hact hstep =>
      by_cases hne : j = i
      · rw [hne]
        exact hstep.ne_outside (by rcases hact with rfl | rfl <;> exact Section.noConfusion)
      · exact hstep.ne_outside_of_ne hne (h j (by simpa [hne] using hj))
  | @waits i act threads hact hstep =>
      by_cases hne : j = i
      · rw [hne]
        exact hstep.ne_outside (by rcases hact with rfl | rfl | rfl <;> exact Section.noConfusion)
      · exact hstep.ne_outside_of_ne hne (h j hj)
  | @stops i role calls threads hinside hplace hcall hstop hstep =>
      have hne : j ≠ i := by
        rintro rfl
        simp at hj
      exact hstep.ne_outside_of_ne hne (h j (by simpa [hne] using hj))
  | @abandons i role calls hinside hplace hcall hnot =>
      have hne : j ≠ i := by
        rintro rfl
        simp at hj
      exact h j (by simpa [hne] using hj)

/-- How many steps are left to a thread in its call, at most. -/
def toGo (s : Clients ι) (i : ι) : Nat := (s.threads.place i).distance + (s.inside i).toNat

omit [DecidableEq ι] in
theorem toGo_le (s : Clients ι) (i : ι) : s.toGo i ≤ 5 :=
  Nat.add_le_add (s.threads.place i).distance_le (Bool.toNat_le (s.inside i))

theorem Step.inside_of_ne {act : ClientAct} (hstep : Step s (i, act) s') {j : ι} (hne : j ≠ i) :
    s'.inside j = s.inside j := by
  cases hstep with
  | enters => exact Function.update_of_ne hne _ _
  | waits => rfl
  | stops => exact Function.update_of_ne hne _ _
  | abandons => exact Function.update_of_ne hne _ _

/-- A step of somebody else takes nothing back. -/
theorem Step.toGo_le_of_ne {act : ClientAct} (hstep : Step s (i, act) s') {j : ι} (hne : j ≠ i) :
    s'.toGo j ≤ s.toGo j := by
  unfold toGo
  rw [hstep.inside_of_ne hne]
  apply Nat.add_le_add_right
  rcases hstep.threads with heq | ⟨act, hstep⟩
  · rw [heq]
  · exact hstep.distance_le hne

/-- Inside its call every step brings a thread on, and giving up is one of them. -/
theorem Step.toGo_lt {act : ClientAct} (hstep : Step s (i, act) s')
    (hact : ∀ entry, act ≠ .enters entry) : s'.toGo i < s.toGo i := by
  cases hstep with
  | enters => exact absurd rfl (hact _)
  | @waits _ act threads hwait hstep =>
      have hinside : act.isStart = false := by rcases hwait with rfl | rfl | rfl <;> rfl
      exact Nat.add_lt_add_right (Threads.InsideStep.distance_lt ⟨hinside, hstep⟩) _
  | @stops _ role calls threads hinside hplace hcall hstop hstep =>
      refine Nat.add_lt_add_of_lt_of_le (Threads.InsideStep.distance_lt ⟨rfl, hstep⟩) ?_
      dsimp only
      rw [Function.update_self]
      exact Nat.zero_le _
  | abandons hinside hplace hcall hnot =>
      refine Nat.add_lt_add_left ?_ _
      dsimp only
      rw [Function.update_self, hinside]
      exact Nat.zero_lt_one

/-- A thread that left without its stop function makes no other step. -/
theorem not_step_of_abandoned (hout : s.inside i = false) {role : Role}
    (hplace : s.threads.place i = .active role) {act : ClientAct} : ¬ Step s (i, act) s' := by
  intro hstep
  cases hstep with
  | enters houtside hact hstep =>
      obtain ⟨place, monitor, signal, _, hmoves⟩ := Threads.Step.moves hstep
      rw [hplace] at hmoves
      rcases hact with rfl | rfl <;> cases hmoves
  | waits hact hstep =>
      obtain ⟨place, monitor, signal, _, hmoves⟩ := Threads.Step.moves hstep
      rw [hplace] at hmoves
      rcases hact with rfl | rfl | rfl <;> cases hmoves
  | stops hinside =>
      rw [hout] at hinside
      cases hinside
  | abandons hinside =>
      rw [hout] at hinside
      cases hinside

/-- Between its calls a thread is outside the monitor, or was let in and left without
its stop function. -/
def Settled (s : Clients ι) : Prop :=
  ∀ i, s.inside i = false →
    s.threads.place i = .outside ∨ ∃ role, s.threads.place i = .active role

/-- A thread between its calls does not go on at the monitor. -/
theorem Settled.not_waits (h : Settled s) (hout : s.inside i = false) {act : Section} :
    ¬ Step s (i, .waits act) s' := by
  intro hstep
  rcases h i hout with hplace | ⟨role, hplace⟩
  · cases hstep with
    | waits hact hstep =>
        obtain ⟨place, monitor, signal, _, hmoves⟩ := Threads.Step.moves hstep
        rw [hplace] at hmoves
        rcases hact with rfl | rfl | rfl <;> cases hmoves
  · exact not_step_of_abandoned hout hplace hstep

theorem Settled.step {event : ι × ClientAct} (h : Settled s) (hstep : Step s event s') :
    Settled s' := by
  obtain ⟨i, act⟩ := event
  intro j hj
  by_cases hne : j = i
  · subst hne
    cases hstep with
    | enters => simp at hj
    | waits hact hstep => exact absurd (.waits hact hstep) (h.not_waits hj)
    | stops hinside hplace hcall hstop hstep => exact Or.inl (Threads.Step.of_stop hstep).2
    | @abandons _ role calls hinside hplace => exact Or.inr ⟨role, hplace⟩
  · rw [hstep.inside_of_ne hne] at hj
    have hold := h j hj
    rcases hstep.threads with heq | ⟨act, hstep⟩
    · rw [heq]
      exact hold
    · have hawake : ∀ role, s.threads.place j ≠ .asleep role := by
        intro role heq
        rw [heq] at hold
        rcases hold with hold | ⟨_, hold⟩ <;> cases hold
      rw [Threads.Step.place_eq hstep hne hawake]
      exact hold

theorem settled_of_run {events : List (ι × ClientAct)} (hrun : Run Step init events s) :
    Settled s :=
  hrun.invariant Settled (fun _ _ _ h hstep => h.step hstep) fun _ _ => Or.inl rfl

omit [DecidableEq ι] in
/-- Who sleeps does so in a call. -/
theorem Settled.inside_of_asleep (h : Settled s) {role : Role}
    (hasleep : s.threads.place i = .asleep role) : s.inside i = true := by
  by_contra hout
  have hplace := h i (Bool.eq_false_of_not_eq_true hout)
  rw [hasleep] at hplace
  rcases hplace with hplace | ⟨_, hplace⟩ <;> cases hplace

/-- A thread that sleeps makes no step but a spurious wake-up. -/
theorem not_step_of_asleep (hin : s.inside i = true) {role : Role}
    (hplace : s.threads.place i = .asleep role) {act : ClientAct}
    (hdue : act ≠ .waits .spuriousWakeup) : ¬ Step s (i, act) s' := by
  intro hstep
  cases hstep with
  | enters houtside =>
      rw [hin] at houtside
      cases houtside
  | waits hact hstep =>
      obtain ⟨place, monitor, signal, _, hmoves⟩ := Threads.Step.moves hstep
      rw [hplace] at hmoves
      cases hmoves
      exact hdue rfl
  | stops hinside hactive =>
      rw [hplace] at hactive
      cases hactive
  | abandons hinside hactive =>
      rw [hplace] at hactive
      cases hactive

/-- For the monitor, a step of somebody else who is not woken spuriously. -/
theorem Step.others {k : ι} {act : ClientAct} (hstep : Step s (k, act) s') (hne : k ≠ i)
    (hdue : act ≠ .waits .spuriousWakeup) :
    s'.threads = s.threads ∨ ∃ event, Threads.OthersStep i s.threads event s'.threads := by
  cases hstep with
  | enters houtside hact hstep =>
      refine Or.inr ⟨_, hne, ?_, hstep⟩
      rcases hact with rfl | rfl <;> exact Section.noConfusion
  | waits hact hstep => exact Or.inr ⟨_, hne, fun heq => hdue (congrArg _ heq), hstep⟩
  | stops hinside hplace hcall hstop hstep =>
      exact Or.inr ⟨(k, .stop), hne, Section.noConfusion, hstep⟩
  | abandons => exact Or.inl rfl

/-! ## Without failures -/

/-- A call that meets no failure: reading at the end of a file, or writing an empty
line. -/
theorem exists_clean_callOf (role : Role) :
    ∃ calls, CallOf role calls ∧ calls.any SystemCall.isFailure = false := by
  cases role with
  | reader => exact ⟨_, callOf_read_ended, rfl⟩
  | writer =>
      have hreturns : aesdsocketWriteLine (Source.os fun _ => .moved).logged 2 3
          ⟨(⟨[], 0⟩, []), ⟨[some [some 0]]⟩⟩ (some 0) =
          .ok (⟨(⟨[], 0⟩, [.startWriting, .stopWriting]), ⟨[some [some 0]]⟩⟩, true) := by
        decide +kernel
      exact ⟨_, .write hreturns rfl, rfl⟩

variable [Fintype ι]

/-- What holds while nothing fails: the counters are right, no sleeper is left alone, and the
threads inside a call are those inside the monitor. -/
structure Orderly (s : Clients ι) : Prop where
  released : s.Released
  watched : s.threads.Watched
  entered : s.Entered

theorem Orderly.step {event : ι × ClientAct} (h : Orderly s) (hcard : Fintype.card ι < 2 ^ 32)
    (hclean : Clean event) (hstep : Step s event s') : Orderly s' := by
  have hreleased := h.released.step hcard hstep hclean
  refine ⟨hreleased, ?_, h.entered.step hstep⟩
  obtain ⟨i, act⟩ := event
  rcases hstep.threads with heq | ⟨act, hthreads⟩
  · rw [heq]
    exact h.watched
  · exact ⟨h.watched.readers_step hreleased.counted hthreads,
      h.watched.writers_step h.released.counted hreleased.counted hthreads⟩

theorem orderly_of_run {events : List (ι × ClientAct)} (hcard : Fintype.card ι < 2 ^ 32)
    (hrun : Run Step init events s) (hclean : ∀ event ∈ events, Clean event) : Orderly s :=
  (hrun.restrict hclean).invariant Orderly (fun _ _ _ h hstep => h.step hcard hstep.1 hstep.2)
    ⟨init_released, Threads.init_watched, fun _ h => by cases h⟩

/-- With somebody at the monitor a client goes on, and needs no failure and no
spurious wake-up for it. -/
theorem Orderly.exists_step (h : Orderly s) (hne : s.threads ≠ Threads.init) :
    ∃ i act s', (act ≠ .waits .spuriousWakeup ∧ ∀ entry, act ≠ .enters entry) ∧
      Clean (i, act) ∧ Step s (i, act) s' := by
  obtain ⟨⟨i, act⟩, threads, hdue, hinside, hstep⟩ :=
    h.watched.exists_step h.released.counted hne
  cases act with
  | startReading => cases hinside
  | startWriting => cases hinside
  | spuriousWakeup => exact absurd rfl hdue
  | resume =>
      exact ⟨i, .waits .resume, _, ⟨by simp, by simp⟩, trivial,
        .waits (Or.inr (Or.inl rfl)) hstep⟩
  | announce =>
      exact ⟨i, .waits .announce, _, ⟨by simp, by simp⟩, trivial,
        .waits (Or.inr (Or.inr rfl)) hstep⟩
  | stop =>
      obtain ⟨role, hplace⟩ := (Threads.Step.of_stop hstep).1
      have hin : s.inside i = true := by
        by_contra hout
        rw [h.released.outside i (Bool.eq_false_of_not_eq_true hout)] at hplace
        cases hplace
      obtain ⟨calls, hcall, hclean⟩ := exists_clean_callOf role
      exact ⟨i, .returns calls, _, ⟨by simp, by simp⟩, hclean,
        .stops hin hplace hcall (hcall.stops hclean) hstep⟩

omit [Fintype ι] in
/-- An empty monitor lets a client in. -/
theorem exists_enters (hidle : s.threads = Threads.init) (hout : s.inside i = false)
    (role : Role) : ∃ s', Step s (i, .enters role.entry) s' := by
  have henters : (s.threads.next? (i, role.entry)).isSome = true := by
    rw [hidle]
    cases role <;> rfl
  obtain ⟨threads, hstep⟩ := Option.isSome_iff_exists.mp henters
  have hentry : role.entry = .startReading ∨ role.entry = .startWriting := by
    cases role with
    | reader => exact Or.inl rfl
    | writer => exact Or.inr rfl
  exact ⟨_, .enters hout hentry hstep⟩

/-- A writer inside its call, and a reader that sleeps in its own. -/
theorem run_writerAndReader : ∃ s : Clients Bool, Run Step init
    [(false, .enters .startWriting), (true, .enters .startReading)] s ∧
      s.threads = Threads.writerAndReader ∧ s.inside false = true := by
  let writing : Threads Bool := Threads.init.move false (.active .writer) ⟨0, 1, 0, 0⟩ none
  let inside : Bool → Bool := Function.update (fun _ => false) false true
  have hwriter : Step init (false, .enters .startWriting) ⟨writing, inside⟩ :=
    .enters rfl (Or.inr rfl) rfl
  have hreader : Step ⟨writing, inside⟩ (true, .enters .startReading)
      ⟨Threads.writerAndReader, Function.update inside true true⟩ := .enters rfl (Or.inl rfl) rfl
  exact ⟨_, .snoc (.single hwriter) hreader, rfl, rfl⟩

end Clients

end Aesd
