import Aesd.Driver.Cleanup

/-!
# The life of the module

The module is loaded, its device is opened, used and released, and the module is
unloaded, again and again. Loading may fail at either of its two registrations.
What is registered and which memory is live depends only on whether the module
is loaded.
-/

namespace Aesd

open CSem LineStream Transition

/-- `MKDEV`: the minor number takes twenty bits of a device number. -/
def mkdev (major minor : Nat) : Nat := major * 2 ^ 20 + minor

/-- `MAJOR`. -/
def majorOf (dev : Nat) : Nat := dev / 2 ^ 20

def aesdMinor : Nat := 0

@[simp] theorem majorOf_mkdev (major : Nat) : majorOf (mkdev major aesdMinor) = major := by
  rw [majorOf, mkdev, aesdMinor, Nat.add_zero]
  exact Nat.mul_div_cancel major (by decide)

theorem mkdev_ne_zero {major : Nat} (hpos : 0 < major) : mkdev major aesdMinor ≠ 0 :=
  Nat.ne_of_gt (Nat.add_pos_left (Nat.mul_pos hpos (by decide)) aesdMinor)

/-- What is registered with the kernel: regions of device numbers, and character
devices. -/
structure Registry where
  regions : List Nat
  cdevs : List Nat
  deriving DecidableEq

def Registry.empty : Registry := ⟨[], []⟩

/-- One region and the character device in it. -/
def Registry.device (dev : Nat) : Registry := ⟨[dev], [dev]⟩

/-- How the kernel answers while the module is loaded: the result of
`alloc_chrdev_region` with the major number that it found, and the result of
`cdev_add`. The major number is not zero, which would ask for finding one. -/
structure InitOutcome where
  region : Int
  major : Nat
  cdevAdd : Int
  major_pos : 0 < major

/-- `aesd_setup_cdev`. -/
def aesdSetupCdev (registry : Registry) (aesdMajor : Nat) (cdevAdd : Int) : Registry × Int :=
  if cdevAdd < 0 then (registry, cdevAdd)
  else ({ registry with cdevs := mkdev aesdMajor aesdMinor :: registry.cdevs }, cdevAdd)

/-- The code at `done` of `aesd_init_module`, with `ok` still negative when one of
the calls failed. -/
def aesdInitDone (registry : Registry) (dev : Nat) (result ok : Int) : Registry × Int :=
  if ok < 0 then
    (if dev ≠ 0 then { registry with regions := registry.regions.erase dev } else registry,
      if result < 0 then result else ok)
  else (registry, ok)

/-- `aesd_init_module`. -/
def aesdInitModule (registry : Registry) (outcome : InitOutcome) : Registry × Int :=
  if outcome.region < 0 then aesdInitDone registry 0 outcome.region (-1)
  else
    let dev := mkdev outcome.major aesdMinor
    let registry := { registry with regions := dev :: registry.regions }
    let (registry, result) := aesdSetupCdev registry (majorOf dev) outcome.cdevAdd
    aesdInitDone registry dev result (if result < 0 then -1 else result)

/-- `aesd_cleanup_module` with the registrations that it takes back. -/
def unloadModule (registry : Registry) (aesdMajor : Nat) (k : Kernel) : Exec (Registry × Heap) := do
  let devno := mkdev aesdMajor aesdMinor
  let registry : Registry := { registry with cdevs := registry.cdevs.erase devno }
  let heap ← aesdCleanupModule k
  .ok ({ registry with regions := registry.regions.erase devno }, heap)

/-- Loading from nothing registers everything, or nothing and the result is that
of the call that failed. -/
theorem aesdInitModule_eq (outcome : InitOutcome) :
    aesdInitModule Registry.empty outcome =
      if outcome.region < 0 then (Registry.empty, outcome.region)
      else if outcome.cdevAdd < 0 then (Registry.empty, outcome.cdevAdd)
      else (Registry.device (mkdev outcome.major aesdMinor), outcome.cdevAdd) := by
  unfold aesdInitModule
  by_cases hregion : outcome.region < 0
  · rw [if_pos hregion, if_pos hregion]
    simp [aesdInitDone, hregion]
  · rw [if_neg hregion, if_neg hregion]
    by_cases hcdev : outcome.cdevAdd < 0
    · simp [aesdSetupCdev, aesdInitDone, hcdev, mkdev_ne_zero outcome.major_pos, Registry.empty]
    · simp [aesdSetupCdev, aesdInitDone, hcdev, Registry.empty, Registry.device]

/-! ## Loading and unloading again and again -/

/-- The module while it is loaded: `aesd_major`, the device, and the open files. -/
structure Loaded where
  aesdMajor : Nat
  driver : Driver
  openFiles : List Nat

/-- The kernel around the module, with the memory that earlier loads left. -/
structure Lifecycle where
  registry : Registry
  loaded : Option Loaded
  left : List Heap

inductive LifeEvent
  | insmod (outcome : InitOutcome) (result : Int)
  | opened (file : Nat)
  | called (event : Event)
  | released (file : Nat)
  | rmmod

/-- `aesd_open` and `aesd_release` do nothing to the device: a file starts at
position zero. -/
def Loaded.openFile (m : Loaded) (file : Nat) : Loaded :=
  { m with
    driver := { m.driver with fPos := Function.update m.driver.fPos file 0 }
    openFiles := file :: m.openFiles }

def Loaded.releaseFile (m : Loaded) (file : Nat) : Loaded :=
  { m with openFiles := m.openFiles.erase file }

/-- The module is loaded when it is not, and unloaded when no file of it is open. -/
inductive Lifecycle.Step (seek : FixedSizeLlseek) : Lifecycle → LifeEvent → Lifecycle → Prop
  | insmod {registry registry' : Registry} {left : List Heap} {outcome : InitOutcome} {result : Int}
      (hinit : aesdInitModule registry outcome = (registry', result)) :
      Step seek ⟨registry, none, left⟩ (.insmod outcome result)
        ⟨registry', if 0 ≤ result then
          some ⟨majorOf (mkdev outcome.major aesdMinor), Driver.init, []⟩ else none, left⟩
  | opened {registry : Registry} {m : Loaded} {left : List Heap} {file : Nat}
      (hclosed : file ∉ m.openFiles) :
      Step seek ⟨registry, some m, left⟩ (.opened file) ⟨registry, some (m.openFile file), left⟩
  | called {registry : Registry} {m : Loaded} {left : List Heap} {event : Event} {d' : Driver}
      (hopen : event.file ∈ m.openFiles) (hstep : Driver.Step seek m.driver event d') :
      Step seek ⟨registry, some m, left⟩ (.called event)
        ⟨registry, some { m with driver := d' }, left⟩
  | released {registry : Registry} {m : Loaded} {left : List Heap} {file : Nat}
      (hopen : file ∈ m.openFiles) :
      Step seek ⟨registry, some m, left⟩ (.released file)
        ⟨registry, some (m.releaseFile file), left⟩
  | rmmod {registry registry' : Registry} {m : Loaded} {left : List Heap} {heap : Heap}
      (hunused : m.openFiles = [])
      (hunload : unloadModule registry m.aesdMajor m.driver.kernel = .ok (registry', heap)) :
      Step seek ⟨registry, some m, left⟩ .rmmod ⟨registry', none, heap :: left⟩

/-- Before the first load. -/
def Lifecycle.start : Lifecycle := ⟨Registry.empty, none, []⟩

/-- A call does not meet a failing `krealloc`. -/
def LifeEvent.KreallocMet : LifeEvent → Prop
  | .called event => event.request.KreallocMet
  | _ => True

/-- The stream that the device accepted since it was loaded. -/
def LifeEvent.extend (stream : List UInt8) : LifeEvent → List UInt8
  | .insmod _ _ => []
  | .called event => stream ++ event.accepted
  | _ => stream

def acceptedSinceLoad (events : List LifeEvent) : List UInt8 := events.foldl LifeEvent.extend []

theorem acceptedSinceLoad_concat (events : List LifeEvent) (event : LifeEvent) :
    acceptedSinceLoad (events ++ [event]) = event.extend (acceptedSinceLoad events) := by
  rw [acceptedSinceLoad, List.foldl_append]
  rfl

/-- The device of a loaded module: it holds the log of what it accepted, and it
points to all memory that is live. -/
structure Loaded.Sound (m : Loaded) (stream : List UInt8) : Prop where
  holds : ∃ es, m.driver.kernel.Holds es (Log.ofStream stream)
  accounted : m.driver.kernel.Accounted
  fits : m.driver.kernel.heap.total < 2 ^ 63

namespace Loaded.Sound

variable {m : Loaded} {stream : List UInt8} {seek : FixedSizeLlseek} {event : Event} {d' : Driver}

theorem init (major : Nat) : Loaded.Sound ⟨major, Driver.init, []⟩ [] where
  holds := ⟨[], Kernel.init_holds⟩
  accounted := Kernel.init_accounted
  fits := (by decide : Kernel.init.heap.total < 2 ^ 63)

theorem called (h : m.Sound stream) (hstep : Driver.Step seek m.driver event d')
    (hmet : event.request.KreallocMet) :
    Loaded.Sound { m with driver := d' } (stream ++ event.accepted) where
  holds := Driver.SafeStep.holds ⟨hstep, hmet.safe m.driver.kernel⟩ h.holds
  accounted := by
    obtain ⟨es, hholds⟩ := h.holds
    exact hstep.accounted hholds.toStores h.accounted hmet
  fits := hstep.fits

/-- Unloading is no fault and leaves no live block. -/
theorem cleanup (h : m.Sound stream) :
    ∃ heap, aesdCleanupModule m.driver.kernel = .ok heap ∧ ∀ p, heap.block? p = none := by
  obtain ⟨es, hholds⟩ := h.holds
  obtain ⟨freed, hperm, hcleanup⟩ := aesdCleanupModule_eq hholds.toStores
  have howned : ∀ p, p ∈ freed ↔ p ∈ m.driver.kernel.owned es := fun p => hperm.mem_iff
  have hlive : ∀ p ∈ freed, (m.driver.kernel.heap.block? p).isSome := by
    intro p hmem
    rcases Kernel.mem_owned.mp ((howned p).mp hmem) with hentry | hptr
    · exact hholds.live_of_mem hentry
    · exact hholds.live_unterminated hptr
  obtain ⟨heap, hfreed, hdead, hothers⟩ :=
    Heap.free_all (hperm.nodup_iff.mpr hholds.nodup) hlive
  refine ⟨heap, hcleanup.trans hfreed, fun p => ?_⟩
  by_cases hmem : p ∈ freed
  · exact hdead p hmem
  · rw [hothers p hmem]
    by_contra hsome
    have hpointed := h.accounted p (Option.isSome_iff_ne_none.mpr hsome)
    rw [hholds.toStores.entries_eq] at hpointed
    exact hmem ((howned p).mpr hpointed)

end Loaded.Sound

namespace Lifecycle

variable {seek : FixedSizeLlseek} {s s' : Lifecycle} {event : LifeEvent} {events : List LifeEvent}
  {stream : List UInt8}

/-- What is registered and live goes with the module. -/
structure Sound (stream : List UInt8) (s : Lifecycle) : Prop where
  left_dead : ∀ heap ∈ s.left, ∀ p, heap.block? p = none
  unloaded : s.loaded = none → s.registry = Registry.empty
  registered : ∀ m, s.loaded = some m →
    s.registry = Registry.device (mkdev m.aesdMajor aesdMinor)
  device : ∀ m, s.loaded = some m → m.Sound stream

theorem start_sound : start.Sound [] where
  left_dead _ hmem := absurd hmem List.not_mem_nil
  unloaded _ := rfl
  registered _ heq := by cases heq
  device _ heq := by cases heq

/-- A step of a loaded module that stays loaded. -/
theorem Sound.stay {registry : Registry} {m m' : Loaded} {left : List Heap}
    {stream' : List UInt8} (h : Sound stream ⟨registry, some m, left⟩)
    (hmajor : m'.aesdMajor = m.aesdMajor) (hdevice : m'.Sound stream') :
    Sound stream' ⟨registry, some m', left⟩ where
  left_dead := h.left_dead
  unloaded heq := by cases heq
  registered _ heq := by
    cases heq
    rw [hmajor]
    exact h.registered m rfl
  device _ heq := by
    cases heq
    exact hdevice

theorem Sound.insmod {registry registry' : Registry} {left : List Heap} {outcome : InitOutcome}
    {result : Int} (h : Sound stream ⟨registry, none, left⟩)
    (hinit : aesdInitModule registry outcome = (registry', result)) :
    Sound [] ⟨registry', if 0 ≤ result then
      some ⟨majorOf (mkdev outcome.major aesdMinor), Driver.init, []⟩ else none, left⟩ := by
  have hempty : registry = Registry.empty := h.unloaded rfl
  rw [hempty, aesdInitModule_eq] at hinit
  have hfailed : ∀ {failed : Int}, failed < 0 → (Registry.empty, failed) = (registry', result) →
      Sound [] ⟨registry', if 0 ≤ result then
        some ⟨majorOf (mkdev outcome.major aesdMinor), Driver.init, []⟩ else none, left⟩ := by
    intro failed hneg heq
    cases heq
    rw [if_neg (Int.not_le.mpr hneg)]
    exact ⟨h.left_dead, fun _ => rfl, fun _ heq => (by cases heq), fun _ heq => (by cases heq)⟩
  by_cases hregion : outcome.region < 0
  · rw [if_pos hregion] at hinit
    exact hfailed hregion hinit
  · rw [if_neg hregion] at hinit
    by_cases hcdev : outcome.cdevAdd < 0
    · rw [if_pos hcdev] at hinit
      exact hfailed hcdev hinit
    · rw [if_neg hcdev] at hinit
      cases hinit
      rw [if_pos (Int.not_lt.mp hcdev), majorOf_mkdev]
      refine ⟨h.left_dead, fun heq => (by cases heq), fun _ heq => ?_, fun _ heq => ?_⟩
      · cases heq
        rfl
      · cases heq
        exact .init outcome.major

/-- What unloading does to a loaded module. -/
theorem Sound.unloadModule_eq {registry : Registry} {m : Loaded} {left : List Heap}
    (h : Sound stream ⟨registry, some m, left⟩) :
    ∃ heap, unloadModule registry m.aesdMajor m.driver.kernel = .ok (Registry.empty, heap) ∧
      ∀ p, heap.block? p = none := by
  have hregistry : registry = Registry.device (mkdev m.aesdMajor aesdMinor) := h.registered m rfl
  obtain ⟨heap, hcleanup, hdead⟩ := (h.device m rfl).cleanup
  refine ⟨heap, ?_, hdead⟩
  rw [unloadModule, hcleanup, hregistry]
  simp [Registry.device, Registry.empty]

theorem Step.sound (hstep : Step seek s event s') (h : s.Sound stream) (hmet : event.KreallocMet) :
    s'.Sound (event.extend stream) := by
  cases hstep with
  | insmod hinit => exact h.insmod hinit
  | @opened registry m left file _ =>
      have hdevice := h.device m rfl
      exact h.stay rfl ⟨hdevice.holds, hdevice.accounted, hdevice.fits⟩
  | @called registry m left event d' _ hstep =>
      exact h.stay rfl ((h.device m rfl).called hstep hmet)
  | @released registry m left file _ =>
      have hdevice := h.device m rfl
      exact h.stay rfl ⟨hdevice.holds, hdevice.accounted, hdevice.fits⟩
  | rmmod _ hunload =>
      obtain ⟨heap, hunloaded, hdead⟩ := h.unloadModule_eq
      cases hunloaded.symm.trans hunload
      refine ⟨fun heap' hmem => ?_, fun _ => rfl, fun _ heq => (by cases heq),
        fun _ heq => (by cases heq)⟩
      rcases List.mem_cons.mp hmem with rfl | hmem
      · exact hdead
      · exact h.left_dead heap' hmem

theorem sound_of_run
    (hrun : Run (fun s event s' => event.KreallocMet ∧ Step seek s event s') start events s) :
    s.Sound (acceptedSinceLoad events) := by
  refine hrun.history_invariant (fun events s => s.Sound (acceptedSinceLoad events)) ?_ start_sound
  rintro events s event s' h ⟨hmet, hstep⟩
  rw [acceptedSinceLoad_concat]
  exact hstep.sound h hmet

/-- However often the module is loaded and unloaded, as long as no `krealloc` fails:
without it nothing is registered and no memory of it is live; with it exactly its
region and its device are registered, the device holds the last ten lines and the
rest of what it accepted since this load, and it can be unloaded once no file is
open; and loading fails only with the result of the registration that failed. -/
theorem module_lifecycle (seek : FixedSizeLlseek) {events : List LifeEvent} {s : Lifecycle}
    (hrun : Run (Step seek) start events s) (hmet : ∀ event ∈ events, event.KreallocMet) :
    (∀ heap ∈ s.left, ∀ p, heap.block? p = none) ∧
      (s.loaded = none → s.registry = Registry.empty ∧
        ∀ outcome result s', Step seek s (.insmod outcome result) s' →
          (s'.loaded = none ↔ outcome.region < 0 ∨ outcome.cdevAdd < 0) ∧
          result = if outcome.region < 0 then outcome.region else outcome.cdevAdd) ∧
      ∀ m, s.loaded = some m →
        s.registry = Registry.device (mkdev m.aesdMajor aesdMinor) ∧
        m.driver.kernel.committedBytes =
          .ok ((lines newline (acceptedSinceLoad events)).rtake 10) ∧
        m.driver.kernel.pendingBytes = .ok (rest newline (acceptedSinceLoad events)) ∧
        (m.openFiles = [] → ∃ s', Step seek s .rmmod s') := by
  have h := sound_of_run (hrun.restrict hmet)
  refine ⟨h.left_dead, fun hnone => ⟨h.unloaded hnone, ?_⟩, fun m hloaded => ?_⟩
  · rintro outcome result s' hstep
    cases hstep with
    | @insmod registry registry' left _ _ hinit =>
        have hempty : registry = Registry.empty := h.unloaded rfl
        rw [hempty, aesdInitModule_eq] at hinit
        by_cases hregion : outcome.region < 0
        · rw [if_pos hregion] at hinit
          cases hinit
          rw [if_pos hregion, if_neg (Int.not_le.mpr hregion)]
          exact ⟨iff_of_true rfl (Or.inl hregion), rfl⟩
        · rw [if_neg hregion] at hinit ⊢
          by_cases hcdev : outcome.cdevAdd < 0
          · rw [if_pos hcdev] at hinit
            cases hinit
            rw [if_neg (Int.not_le.mpr hcdev)]
            exact ⟨iff_of_true rfl (Or.inr hcdev), rfl⟩
          · rw [if_neg hcdev] at hinit
            cases hinit
            rw [if_pos (Int.not_lt.mp hcdev)]
            refine ⟨iff_of_false (fun heq => (by cases heq)) ?_, rfl⟩
            exact not_or.mpr ⟨hregion, hcdev⟩
  · obtain ⟨es, hholds⟩ := (h.device m hloaded).holds
    refine ⟨h.registered m hloaded, hholds.committedBytes_eq, hholds.pendingBytes_eq,
      fun hnil => ?_⟩
    obtain ⟨registry, loaded, left⟩ := s
    obtain rfl : loaded = some m := hloaded
    obtain ⟨heap, hunload, _⟩ := h.unloadModule_eq
    exact ⟨_, .rmmod hnil hunload⟩

/-- The second attempt to load is successful, and then file 0 writes a line. -/
theorem module_lifecycle_oneLine : ∃ events s m, Run (Step .reference) start events s ∧
    s.loaded = some m ∧ s.registry = Registry.device (mkdev 240 aesdMinor) ∧
    m.driver.kernel.committedBytes = .ok [[97, 10]] ∧ m.driver.kernel.pendingBytes = .ok [] := by
  let refused : InitOutcome := ⟨0, 240, -12, by decide⟩
  let granted : InitOutcome := ⟨0, 240, 0, by decide⟩
  let opened : Loaded := Loaded.openFile ⟨240, Driver.init, []⟩ 0
  let written : Driver :=
    ⟨Driver.oneLine.kernel, Function.update opened.driver.fPos 0 2⟩
  have hserve : (Request.write ⟨true, .moved, 2⟩ [97, 10]).serve .reference Kernel.init 0 =
      .ok (Driver.oneLine.kernel, ⟨2, 2, [], some [97, 10]⟩) := by decide +kernel
  have hrefused : Step .reference start (.insmod refused (-12)) start :=
    .insmod (by decide : aesdInitModule Registry.empty refused = (Registry.empty, -12))
  have hgranted : Step .reference start (.insmod granted 0)
      ⟨Registry.device (mkdev 240 aesdMinor), some ⟨240, Driver.init, []⟩, []⟩ := by
    have hinit : aesdInitModule Registry.empty granted =
        (Registry.device (mkdev 240 aesdMinor), 0) := by decide
    have hloads := @Step.insmod .reference _ _ [] _ _ hinit
    rwa [if_pos (le_refl 0), majorOf_mkdev] at hloads
  have hopened : Step .reference ⟨Registry.device (mkdev 240 aesdMinor),
      some ⟨240, Driver.init, []⟩, []⟩ (.opened 0)
      ⟨Registry.device (mkdev 240 aesdMinor), some opened, []⟩ :=
    .opened List.not_mem_nil
  have hcalled : Step .reference ⟨Registry.device (mkdev 240 aesdMinor), some opened, []⟩
      (.called Driver.oneLineEvent)
      ⟨Registry.device (mkdev 240 aesdMinor), some { opened with driver := written }, []⟩ :=
    .called List.mem_cons_self
      (Driver.Step.of_serve opened.driver 0 (by decide) hserve (by decide))
  have hrun := ((((Run.nil start).snoc hrefused).snoc hgranted).snoc hopened).snoc hcalled
  have hmet : ∀ event ∈ [.insmod refused (-12), .insmod granted 0, .opened 0,
      .called Driver.oneLineEvent], LifeEvent.KreallocMet event := by
    simp [LifeEvent.KreallocMet, Driver.oneLineEvent, Request.KreallocMet]
  obtain ⟨_, _, hloaded⟩ := module_lifecycle .reference hrun hmet
  obtain ⟨hregistered, hcommitted, hpending, _⟩ := hloaded _ rfl
  exact ⟨_, _, _, hrun, rfl, hregistered, hcommitted, hpending⟩

end Lifecycle

end Aesd
