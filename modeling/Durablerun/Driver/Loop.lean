import Mathlib.Algebra.Order.Ring.Rat
import Mathlib.Order.Monotone.Basic

/-!
# The resident driver

`DriverLoop.run` ticks, parks until there may be something to do, and ticks again. Between its await
points it runs alone; at them a `wake()`, a `stop()` or the answer of a heartbeat may come. A state is
the loop at an await point, with what it did so far, newest first.

Reference: `packages/driver/src/loop.ts`.
-/

namespace Durablerun.Driver

/-! ## What the loop is given -/

/-- The options, as the constructor accepts them. -/
structure LoopOptions where
  busyCeilingMs : ℕ
  idleCeilingMs : ℕ
  wakeFloorMs : ℕ
  idleAfterTicks : ℕ
  registryIntervalMs : ℕ
  busy_pos : 0 < busyCeilingMs
  floor_pos : 0 < wakeFloorMs
  idleAfter_pos : 0 < idleAfterTicks
  registry_pos : 0 < registryIntervalMs
  /-- Past the largest timer, a timer fires at once. -/
  timer : max (max busyCeilingMs idleCeilingMs) wakeFloorMs ≤ 2 ^ 31 - 1
  idle_le : busyCeilingMs ≤ idleCeilingMs

/-- The clocks, by the number of times they were read before. The elapsed time never goes back. -/
structure Clock where
  nowEpochMs : ℕ → ℚ
  elapsedMs : ℕ → ℚ
  never_back : Monotone elapsedMs

/-- What a tick found. -/
structure TickResult (SweptRun : Type) where
  swept : List SweptRun
  claimed : ℕ
  launched : ℕ
  launchFailed : ℕ
  ended : ℕ
  nextWakeAtEpochMs : Option ℚ
  backlog : Bool

/-- A heartbeat in flight: when it was sent, and whether its answer came. -/
structure Beat where
  sentAtMs : ℚ
  answered : Bool

structure Stats (SweptRun : Type) where
  ticks : ℕ
  tickErrors : ℕ
  launched : ℕ
  launchFailed : ℕ
  ended : ℕ
  lastResult : Option (TickResult SweptRun)

/-! ## The loop -/

/-- How a park was sized: the outcome of the tick before it, the empty ticks in a row, the time to the
next wake if there is one, the last beat that was confirmed and the reading its bound was taken at. -/
structure Park (SweptRun : Type) where
  result : Option (TickResult SweptRun)
  idleTicks : ℕ
  untilWakeMs : Option ℚ
  lastBeatAtMs : Option ℚ
  beatReadAtMs : ℚ
  startedAtMs : ℚ
  sleepMs : ℚ

/-- The look a park plans, in elapsed time. -/
def Park.lookAtMs {SweptRun : Type} (park : Park SweptRun) : ℚ := park.startedAtMs + park.sleepMs

/-- The answer of a tick, with no result where it threw, and how often the elapsed clock and the epoch
clock had been read when it came. -/
structure Answer (SweptRun : Type) where
  result : Option (TickResult SweptRun)
  elapsedReads : ℕ
  epochReads : ℕ

/-- What the loop did, or was told. -/
inductive Mark (SweptRun : Type) where
  | run
  | wake
  | stop
  | ticked (answer : Answer SweptRun)
  | beatConfirmed (sentAtMs : ℚ)
  | tick (startedAtMs : ℚ)
  | beat (sentAtMs : ℚ)
  | yieldTurn
  | sized (park : Park SweptRun)
  | parked
  /-- The wait a wake adds. -/
  | wait (nowMs remaining : ℚ)
  /-- The pending wake is cleared. -/
  | cleared
  | ended

/-- What the loop awaits, with what it goes on with. -/
inductive Await (SweptRun : Type) where
  | idle
  | tick
  | yieldTurn (result : Option (TickResult SweptRun)) (empty : Bool)
  | park (startedAtMs sleepMs : ℚ)
  | wait (nowMs remaining : ℚ)
  | done

/-- The loop's fields, and the locals of `run`. An interrupt is whether it was aborted. -/
structure DriverLoop (SweptRun : Type) where
  running : Bool
  everRan : Bool
  sleepInterrupt : Option Bool
  floorInterrupt : Bool
  wakeRequested : Bool
  idleTicks : ℕ
  chainedTicks : ℕ
  lastBeatAtMs : Option ℚ
  beatInFlight : Option Beat
  stats : Stats SweptRun
  lastTickStartedAtMs : ℚ
  awaits : Await SweptRun
  /-- How often the elapsed clock and the epoch clock were read. -/
  elapsedReads : ℕ
  epochReads : ℕ
  log : List (Mark SweptRun)

namespace DriverLoop

variable {SweptRun : Type}

/-- A loop that was constructed. -/
def new : DriverLoop SweptRun where
  running := false
  everRan := false
  sleepInterrupt := none
  floorInterrupt := false
  wakeRequested := false
  idleTicks := 0
  chainedTicks := 0
  lastBeatAtMs := none
  beatInFlight := none
  stats := ⟨0, 0, 0, 0, 0, none⟩
  lastTickStartedAtMs := 0
  awaits := .idle
  elapsedReads := 0
  epochReads := 0
  log := []

section Run

variable (options : LoopOptions) (clock : Clock)

def mark (m : Mark SweptRun) (s : DriverLoop SweptRun) : DriverLoop SweptRun :=
  { s with log := m :: s.log }

/-- The elapsed clock is read. -/
def read (s : DriverLoop SweptRun) : ℚ × DriverLoop SweptRun :=
  (clock.elapsedMs s.elapsedReads, { s with elapsedReads := s.elapsedReads + 1 })

/-- `msUntilBeatDue`, and the reading it takes. -/
def msUntilBeatDue (lastBeatAtMs : Option ℚ) (nowMs : ℚ) : ℚ :=
  match lastBeatAtMs with
  | none => options.registryIntervalMs
  | some last => max 1 (last + options.registryIntervalMs - nowMs)

/-- A heartbeat is sent where none is in flight and one is due. -/
def beatRegistry (s : DriverLoop SweptRun) : DriverLoop SweptRun :=
  let (now, s) := s.read clock
  if s.beatInFlight.isSome then s
  else if s.lastBeatAtMs.any fun last => now - last < options.registryIntervalMs then s
  else { s with beatInFlight := some ⟨now, false⟩ }.mark (.beat now)

/-- The head of the loop, and the start of a tick. -/
def startTick (s : DriverLoop SweptRun) : DriverLoop SweptRun :=
  if s.running then
    let (now, s) := s.read clock
    ({ s with lastTickStartedAtMs := now, awaits := .tick }).mark (.tick now)
  else ({ s with running := false, awaits := .done }).mark .ended

/-- The end of the loop's body. -/
def lookAgain (s : DriverLoop SweptRun) : DriverLoop SweptRun :=
  (({ s with wakeRequested := false }).mark .cleared).startTick clock

/-- The loop after its park. -/
def afterPark (startedAtMs sleepMs : ℚ) (s : DriverLoop SweptRun) : DriverLoop SweptRun :=
  if s.wakeRequested ∧ s.running then
    let (now, s) := s.read clock
    let remaining :=
      min (s.lastTickStartedAtMs + options.wakeFloorMs - now) (startedAtMs + sleepMs - now)
    if 0 < remaining then
      ({ s with chainedTicks := 0, awaits := .wait now remaining }).mark (.wait now remaining)
    else s.lookAgain clock
  else s.lookAgain clock

/-- The ceiling in force. -/
def ceiling (result : Option (TickResult SweptRun)) (idleTicks : ℕ) : ℚ :=
  if result.isNone ∨ options.idleAfterTicks ≤ idleTicks then options.idleCeilingMs
  else options.busyCeilingMs

/-- The park is sized by what it is at most, and begins unless a wake is pending. -/
def park (result : Option (TickResult SweptRun)) (untilWakeMs : Option ℚ) (sleepMs : ℚ)
    (s : DriverLoop SweptRun) : DriverLoop SweptRun :=
  let lastBeatAtMs := s.lastBeatAtMs
  let (beatReadAtMs, s) := if lastBeatAtMs.isSome then s.read clock else (0, s)
  let sleepMs := min sleepMs (msUntilBeatDue options lastBeatAtMs beatReadAtMs)
  let (startedAtMs, s) := s.read clock
  let s := s.mark
    (.sized ⟨result, s.idleTicks, untilWakeMs, lastBeatAtMs, beatReadAtMs, startedAtMs, sleepMs⟩)
  if s.wakeRequested then s.afterPark options clock startedAtMs sleepMs
  else
    ({ s with
      chainedTicks := 0
      sleepInterrupt := some false
      awaits := .park startedAtMs sleepMs }).mark .parked

/-- The loop after its tick was counted and its turn yielded, if it was. -/
def afterTurn (result : Option (TickResult SweptRun)) (empty : Bool) (s : DriverLoop SweptRun) :
    DriverLoop SweptRun :=
  if result.any (·.backlog) then s.startTick clock
  else
    let ceiling := ceiling options result s.idleTicks
    match result.bind (·.nextWakeAtEpochMs) with
    | none => s.park options clock result none ceiling
    | some nextWakeAtEpochMs =>
      let untilWake := nextWakeAtEpochMs - clock.nowEpochMs s.epochReads
      let s := { s with epochReads := s.epochReads + 1 }
      if untilWake ≤ 0 then
        -- Due by the local clock: found nothing, it is ahead of database time.
        if empty then s.park options clock result (some untilWake) ceiling
        else s.startTick clock
      else s.park options clock result (some untilWake) (min untilWake ceiling)

def countTick (outcome : Option (TickResult SweptRun)) (s : DriverLoop SweptRun) :
    DriverLoop SweptRun :=
  match outcome with
  | none => { s with stats := { s.stats with tickErrors := s.stats.tickErrors + 1 } }
  | some result =>
    { s with stats :=
        { s.stats with
          ticks := s.stats.ticks + 1
          launched := s.stats.launched + result.launched
          launchFailed := s.stats.launchFailed + result.launchFailed
          ended := s.stats.ended + result.ended
          lastResult := some result } }

/-- The loop after its tick: a result, or none where it threw. -/
def afterTick (outcome : Option (TickResult SweptRun)) (s : DriverLoop SweptRun) :
    DriverLoop SweptRun :=
  let s := s.mark (.ticked ⟨outcome, s.elapsedReads, s.epochReads⟩)
  let s := (s.countTick outcome).beatRegistry options clock
  if s.running then
    let empty := outcome.any fun result => result.claimed = 0 && result.swept.isEmpty
    let s : DriverLoop SweptRun := { s with
      idleTicks := if empty then s.idleTicks + 1 else 0
      chainedTicks := s.chainedTicks + 1 }
    if 32 ≤ s.chainedTicks then
      ({ s with chainedTicks := 0, awaits := .yieldTurn outcome empty }).mark .yieldTurn
    else s.afterTurn options clock outcome empty
  else s.startTick clock

/-- The loop after it yielded its turn. -/
def afterYield (result : Option (TickResult SweptRun)) (empty : Bool) (s : DriverLoop SweptRun) :
    DriverLoop SweptRun :=
  if s.running then s.afterTurn options clock result empty else s.startTick clock

end Run

/-- `wake()`. -/
def wake (s : DriverLoop SweptRun) : DriverLoop SweptRun :=
  ({ s with wakeRequested := true, sleepInterrupt := s.sleepInterrupt.map fun _ => true }).mark .wake

/-- `stop()`. -/
def stop (s : DriverLoop SweptRun) : DriverLoop SweptRun :=
  ({ s with
    running := false
    sleepInterrupt := s.sleepInterrupt.map fun _ => true
    floorInterrupt := true }).mark .stop

end DriverLoop

/-! ## Runs -/

/-- What may come at an await point. -/
inductive Event (SweptRun : Type) where
  | run
  | wake
  | stop
  /-- The tick answers, or throws. -/
  | ticked (outcome : Option (TickResult SweptRun))
  | yielded
  /-- The sleep is over. -/
  | slept
  | beatConfirmed
  | beatRefused
  | beatSettled

variable {SweptRun : Type}

/-- Whether the loop runs, and waits for something. -/
def Await.inLoop : Await SweptRun → Bool
  | .idle | .done => false
  | _ => true

/-- The contract of the clock port's `sleep`: it resolves after the time it was given, or earlier only
where its interrupt fired. The time is what the clock reads next. -/
def Clock.Slept (clock : Clock) (interrupted : Prop) (endsAtMs : ℚ) (reads : ℕ) : Prop :=
  interrupted ∨ endsAtMs ≤ clock.elapsedMs reads

instance (clock : Clock) (interrupted : Prop) [Decidable interrupted] (endsAtMs : ℚ) (reads : ℕ) :
    Decidable (clock.Slept interrupted endsAtMs reads) :=
  inferInstanceAs (Decidable (_ ∨ _))

/-- The loop goes on. A sleep ends as the clock port promises. -/
def DriverLoop.next (options : LoopOptions) (clock : Clock) (s : DriverLoop SweptRun) :
    Event SweptRun → Option (DriverLoop SweptRun)
  | .run =>
    if s.everRan then none
    else some ((({ s with everRan := true, running := true }).mark .run).startTick clock)
  | .wake => if s.awaits.inLoop then some s.wake else none
  | .stop => if s.awaits.inLoop then some s.stop else none
  | .ticked outcome =>
    match s.awaits with
    | .tick => some (s.afterTick options clock outcome)
    | _ => none
  | .yielded =>
    match s.awaits with
    | .yieldTurn result empty => some (s.afterYield options clock result empty)
    | _ => none
  | .slept =>
    match s.awaits with
    | .park startedAtMs sleepMs =>
      if clock.Slept (s.sleepInterrupt = some true) (startedAtMs + sleepMs) s.elapsedReads then
        some ({ s with sleepInterrupt := none }.afterPark options clock startedAtMs sleepMs)
      else none
    | .wait nowMs remaining =>
      if clock.Slept (s.floorInterrupt = true) (nowMs + remaining) s.elapsedReads then
        some (s.lookAgain clock)
      else none
    | _ => none
  | .beatConfirmed =>
    match s.beatInFlight with
    | some ⟨sentAtMs, false⟩ =>
      some
        ({ s with
          lastBeatAtMs := some sentAtMs
          beatInFlight := some ⟨sentAtMs, true⟩ }.mark (.beatConfirmed sentAtMs))
    | _ => none
  | .beatRefused =>
    match s.beatInFlight with
    | some ⟨sentAtMs, false⟩ => some { s with beatInFlight := some ⟨sentAtMs, true⟩ }
    | _ => none
  | .beatSettled =>
    match s.beatInFlight with
    | some ⟨_, true⟩ => some { s with beatInFlight := none }
    | _ => none

/-- The states a loop gets into. -/
inductive Reachable (options : LoopOptions) (clock : Clock) : DriverLoop SweptRun → Prop
  | new : Reachable options clock .new
  | step {s s' : DriverLoop SweptRun} (event : Event SweptRun) (h : Reachable options clock s)
    (hnext : s.next options clock event = some s') : Reachable options clock s'

end Durablerun.Driver
