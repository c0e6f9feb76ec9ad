import Durablerun.Core.ChildTasks
import Durablerun.Lib.Utf
import Durablerun.Store.Purging

/-!
# A spawn call

A spawn inserts a task under the key the store decides for it, or reads the task that holds the
identity. The two are two statements: a purge may take the holder between them, and a spawn that then
finds no task is sent once more, under the ids of its first send.

Reference: `packages/core/src/statements/spawn.ts`.
-/

namespace Durablerun

open Js Relational

/-! ## The receipt -/

/-- `SpawnResult`. -/
structure SpawnResult where
  taskId : String
  runId : Option String
  created : Bool
  deriving DecidableEq

/-- The receipt's `winner`: the task of this id, or the one that holds this key under another. -/
def spawnWinner (call : SpawnCall) (t : Task) : Prop :=
  (t.taskId = call.taskId ∧ t.queue = call.queue) ∨
    (call.idempotencyKey ≠ none ∧ t.queue = call.queue ∧ t.idempotencyKey = call.idempotencyKey ∧
      t.taskId ≠ call.taskId)
deriving Decidable

/-- The receipt's order: the key's winner first, then the task id. -/
def spawnReceiptOrder (call : SpawnCall) (t u : Task) : Prop :=
  (t.taskId ≠ call.taskId ∧ u.taskId = call.taskId) ∨
    ((t.taskId = call.taskId ↔ u.taskId = call.taskId) ∧ t.taskId ≤ u.taskId)

instance (call : SpawnCall) : DecidableRel (spawnReceiptOrder call) :=
  fun _ _ => inferInstanceAs (Decidable (_ ∨ _))

/-- `spawnReceiptRead`: the task that holds the identity, and its top run. -/
def spawnReceiptRead (db : Db) (call : SpawnCall) : Option (String × Option String) :=
  ((db.tasks.rows.filter fun t => spawnWinner call t).insertionSort
      (spawnReceiptOrder call)).head?.map fun t =>
    (t.taskId, ((ownedRuns db t).insertionSort fun r s => s.attempt ≤ r.attempt).head?.map Run.runId)

/-! ## A call -/

/-- What one send comes to: a result, the refusal of a child's claim, or null. -/
inductive SpawnAnswer where
  | result (result : SpawnResult)
  | refused
  | null
  deriving DecidableEq

/-- `spawnOnce`, of the statement that won and the database its receipt is read from. -/
def spawnOnce (call : SpawnCall) (won : Option Statement) (read : Db) : SpawnAnswer :=
  if won = some .task then .result ⟨call.taskId, some call.runId, true⟩
  else
    match spawnReceiptRead read call with
    | some (taskId, runId) => .result ⟨taskId, runId, false⟩
    | none => if call.parent ≠ none then .refused else .null

/-- The call's key is the one `spawnIdempotencyKey` decides for its options, and its parent the one
they name. -/
def SpawnCall.Keyed (call : SpawnCall) : Prop :=
  ∃ opts : SpawnKeyOptions,
    spawnIdempotencyKey opts = .ok (call.idempotencyKey.map utf16) ∧
      opts.childOf.map ChildOf.parentTaskId = call.parent.map fun p => utf16 p.taskId

/-- A purge took the task. -/
def Purging.Purged (s : Purging) (taskId : String) : Prop :=
  ∃ p ∈ s.purges, (∃ t ∈ p.before.tasks, t.taskId = taskId) ∧
    ∀ t ∈ p.after.tasks, t.taskId ≠ taskId

/-- A spawn goes out under its own key, and again only under ids no purge took: what is sent once more
created nothing. -/
def Spawning (b : Batch) (s : Purging) : Prop :=
  ∀ call, b.call = .spawn call → call.Keyed ∧ ¬ s.Purged call.taskId

/-- Some steps. -/
abbrev Spawning.Later : Purging → Purging → Prop := Relation.ReflTransGen (PurgingStep Spawning)

/-- One send of a call, from `s` on: its batch lands, and its receipt is read in `s'`, then or
later. -/
def SpawnSend (s s' : Purging) (call : SpawnCall) (answer : SpawnAnswer) : Prop :=
  ∃ seed now out, PurgingStep Spawning s (s.deliver ⟨seed, .spawn call⟩ now) ∧
    Batch.run ⟨seed, .spawn call⟩ now s.db = some out ∧
    Spawning.Later (s.deliver ⟨seed, .spawn call⟩ now) s' ∧ spawnOnce call out.won s'.db = answer

/-- `spawnSendingOnceMore`: the call returns the result of its one send, or of the second after the
first answered null. -/
def SpawnReturns (s s' : Purging) (call : SpawnCall) (result : SpawnResult) : Prop :=
  SpawnSend s s' call (.result result) ∨
    ∃ u v, SpawnSend s u call .null ∧ Spawning.Later u v ∧ SpawnSend v s' call (.result result)

end Durablerun
