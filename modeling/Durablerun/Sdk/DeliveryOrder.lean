import Mathlib.Data.Finset.Basic
import Mathlib.Data.Finset.Insert
import Mathlib.Logic.Function.Basic

/-!
# The order results reach a task in

Each result a pass hands its task has a number, and a result is handed over only when every lower
number has been. The numbers are a queue: a call waits for its number, releases it when its result
is handed over and abandons it when it failed; a beat that finds the pass stuck gives up on the
recorded numbers nobody asks for. The state keeps what it did, newest first.

Reference: `packages/sdk/src/delivery-order.ts`.
-/

namespace Durablerun.Sdk

/-- How many numbers the queue keeps behind its head before it drops them. -/
def COMPACT_AT : ℕ := 1024

namespace DeliveryOrder

/-- What happened to a number. -/
inductive Event where
  | assigned (seq : ℕ)
  /-- `wait` made a promise. -/
  | waits (seq : ℕ)
  /-- `wait` let the call go at once, though it is not its number's turn. -/
  | answered (seq : ℕ)
  /-- It is the number's turn: `wait` let the call go, or its promise resolved. -/
  | granted (seq : ℕ)
  /-- An open order resolved the promise. -/
  | letGo (seq : ℕ)
  /-- The number was handed over, and whether a turn of the event loop is owed for it. -/
  | released (seq : ℕ) (owes : Bool)
  | abandoned (seq : ℕ)
  | gaveUp (seq : ℕ)
  /-- A turn of the event loop that was owed has passed. -/
  | turned
  deriving DecidableEq, Repr

/-- A promise that `wait` made, by its place among them, with the number it is for. -/
structure Waiter where
  place : ℕ
  seq : ℕ
  deriving DecidableEq, Repr

end DeliveryOrder

open DeliveryOrder in
/-- The queue of a pass. -/
structure DeliveryOrder where
  /-- Every number, in ascending order, from some that were handed over on. -/
  queue : List ℕ
  head : ℕ := 0
  /-- Every number below this was handed over or given up, and the queue no longer holds it. -/
  floor : ℕ := 0
  /-- The numbers that were handed over or given up, and that the queue still holds. -/
  done : Finset ℕ := ∅
  waiting : ℕ → Option Waiter := fun _ => none
  resolvers : List Waiter := []
  waitingCount : ℕ := 0
  /-- The source's `#open`. -/
  isOpen : Bool := false
  draining : Bool := false
  /-- How many promises of `idle` are pending. -/
  idlers : ℕ := 0
  next : ℕ
  firstLive : ℕ
  settling : Bool := false
  /-- Whether the worker has said how a turn of the event loop is taken. -/
  turn : Bool := false
  progress : ℕ := 0
  beatProgress : ℕ := 0
  /-- How many promises `wait` made, and the places of those that resolved. -/
  promises : ℕ := 0
  woken : Finset ℕ := ∅
  /-- How many calls of `settleAfter` have not seen their turn. -/
  owed : ℕ := 0
  events : List Event := []

namespace DeliveryOrder

/-- The constructor: the numbers of the results the store has, and the highest any marker names. -/
def ofRecorded (recorded : List ℕ) (highest : ℕ) : DeliveryOrder where
  queue := recorded
  next := highest + 1
  firstLive := highest + 1

/-- The numbers from the head on. -/
def pending (o : DeliveryOrder) : List ℕ :=
  o.queue.drop o.head

def happens (o : DeliveryOrder) (e : Event) : DeliveryOrder :=
  { o with events := e :: o.events }

/-! ## The head -/

/-- The head's number is done, and the head moves past it. -/
def pass (o : DeliveryOrder) (seq : ℕ) : DeliveryOrder :=
  { o with done := o.done.erase seq, floor := seq + 1, head := o.head + 1 }

/-- The loop of `advance`, over the numbers from the head on. -/
def passDone : List ℕ → DeliveryOrder → DeliveryOrder
  | [], o => o
  | seq :: rest, o => if seq ∈ o.done then passDone rest (o.pass seq) else o

/-- What has been handed over is dropped. -/
def compact (compactAt : ℕ) (o : DeliveryOrder) : DeliveryOrder :=
  if compactAt ≤ o.head then { o with queue := o.pending, head := 0 } else o

def advance (compactAt : ℕ) (o : DeliveryOrder) : DeliveryOrder :=
  (passDone o.pending o).compact compactAt

/-- Whether the number has been handed over or given up. -/
def isDone (o : DeliveryOrder) (seq : ℕ) : Bool :=
  seq < o.floor || seq ∈ o.done

/-! ## Waking -/

/-- Whether a call waits for a number that is not its turn. -/
def stalled (o : DeliveryOrder) : Bool :=
  0 < o.waitingCount

def busy (o : DeliveryOrder) : Bool :=
  o.settling || o.stalled

def notifyIdle (o : DeliveryOrder) : DeliveryOrder :=
  if o.busy then o else { o with idlers := 0 }

/-- The closure a waiter is called by. -/
def resolve (o : DeliveryOrder) (waiter : Waiter) (e : Event) : DeliveryOrder :=
  if waiter.place ∈ o.woken then o
  else { o with woken := insert waiter.place o.woken, waitingCount := o.waitingCount - 1,
                events := e :: o.events }

/-- The waiter of the head's number leaves the map and is resolved. -/
def grant (o : DeliveryOrder) (seq : ℕ) (waiter : Waiter) : DeliveryOrder :=
  { o with waiting := Function.update o.waiting seq none }.resolve waiter (.granted seq)

def giveUp (o : DeliveryOrder) (seq : ℕ) : DeliveryOrder :=
  { o with done := insert seq o.done, events := .gaveUp seq :: o.events }

/-- The loop of `wake`. Every round but the last gives up on a number of the queue. -/
def wakeLoop (compactAt : ℕ) : ℕ → DeliveryOrder → DeliveryOrder
  | 0, o => o
  | rounds + 1, o =>
    let o := o.advance compactAt
    if o.settling then o
    else if o.waitingCount = 0 then { o with draining := false }.notifyIdle
    else
      match o.pending.head? with
      | none => o
      | some seq =>
        match o.waiting seq with
        | some waiter => (o.grant seq waiter).notifyIdle
        | none =>
          if !o.draining || o.firstLive ≤ seq then o
          else wakeLoop compactAt rounds (o.giveUp seq)

def wake (compactAt : ℕ) (o : DeliveryOrder) : DeliveryOrder :=
  o.wakeLoop compactAt (o.pending.length + 1)

/-! ## The calls -/

/-- The next number, for a result this pass produces. -/
def assign (o : DeliveryOrder) : DeliveryOrder :=
  { o with next := o.next + 1, queue := o.queue ++ [o.next] }.happens (.assigned o.next)

/-- The next number, for a result that is never queued. -/
def reserve (o : DeliveryOrder) : DeliveryOrder :=
  { o with next := o.next + 1 }

/-- A promise of the number's turn. -/
def promise (o : DeliveryOrder) (seq : ℕ) : DeliveryOrder :=
  { o with
    beatProgress := if o.waitingCount = 0 then o.progress else o.beatProgress
    waitingCount := o.waitingCount + 1
    waiting := Function.update o.waiting seq (some (Waiter.mk o.promises seq))
    resolvers := o.resolvers ++ [Waiter.mk o.promises seq]
    promises := o.promises + 1 }.happens (.waits seq)

/-- Resolves when it is the number's turn, and at once when it is already. -/
def wait (compactAt : ℕ) (o : DeliveryOrder) (seq : ℕ) : DeliveryOrder :=
  if o.isOpen || o.isDone seq then o.happens (.answered seq)
  else
    let o := o.advance compactAt
    if o.pending.head? = some seq ∧ o.settling = false then o.happens (.granted seq)
    else o.promise seq

/-- The number is handed over. -/
def release (compactAt : ℕ) (o : DeliveryOrder) (seq : ℕ) (settle : Bool) : DeliveryOrder :=
  let o := { o with done := insert seq o.done, progress := o.progress + 1 }.happens
    (.released seq (settle && o.turn))
  if settle && o.turn then { o with settling := true, owed := o.owed + 1 } else o.wake compactAt

/-- The rest of `settleAfter`, when the turn has passed. -/
def settled (compactAt : ℕ) (o : DeliveryOrder) : DeliveryOrder :=
  (({ o with settling := false, owed := o.owed - 1 }.happens .turned).wake compactAt).notifyIdle

def useTurn (o : DeliveryOrder) : DeliveryOrder :=
  { o with turn := true }

/-- Every call goes, now and from here on, in no order. -/
def «open» (o : DeliveryOrder) : DeliveryOrder :=
  (o.resolvers.foldl (fun (o : DeliveryOrder) waiter => o.resolve waiter (.letGo waiter.seq))
    { o with isOpen := true, resolvers := [] }).notifyIdle

/-- The number will not be handed over: its call failed. -/
def abandon (compactAt : ℕ) (o : DeliveryOrder) (seq : ℕ) : DeliveryOrder :=
  ({ o with done := insert seq o.done }.happens (.abandoned seq)).wake compactAt

/-- A promise that resolves when no result waits and no turn is owed. -/
def idle (o : DeliveryOrder) : DeliveryOrder :=
  { o with idlers := o.idlers + 1 }

/-- One beat of the pass's heartbeat. -/
def beat (compactAt : ℕ) (o : DeliveryOrder) : DeliveryOrder :=
  let stuck := o.stalled && o.progress = o.beatProgress
  let o := { o with beatProgress := o.progress }
  if !stuck then o else { o with draining := true }.wake compactAt

/-- Give up on the lowest number nobody is waiting for, and wake the call behind it. -/
def giveUpOnHead (compactAt : ℕ) (o : DeliveryOrder) : DeliveryOrder :=
  let o := o.advance compactAt
  match o.pending.head? with
  | none => o
  | some seq =>
    if o.firstLive ≤ seq || (o.waiting seq).isSome then o else (o.giveUp seq).wake compactAt

/-! ## Runs -/

/-- A call on the order, or the passing of a turn it is owed. -/
inductive Call where
  | assign
  | reserve
  | wait (seq : ℕ)
  | release (seq : ℕ) (settle : Bool)
  | abandon (seq : ℕ)
  | beat
  | giveUpOnHead
  | settled
  | useTurn
  | idle
  | open
  deriving DecidableEq, Repr

def step (compactAt : ℕ) (o : DeliveryOrder) : Call → DeliveryOrder
  | .assign => o.assign
  | .reserve => o.reserve
  | .wait seq => o.wait compactAt seq
  | .release seq settle => o.release compactAt seq settle
  | .abandon seq => o.abandon compactAt seq
  | .beat => o.beat compactAt
  | .giveUpOnHead => o.giveUpOnHead compactAt
  | .settled => o.settled compactAt
  | .useTurn => o.useTurn
  | .idle => o.idle
  | .open => o.open

def run (compactAt : ℕ) (o : DeliveryOrder) (calls : List Call) : DeliveryOrder :=
  calls.foldl (step compactAt) o

end DeliveryOrder

end Durablerun.Sdk
