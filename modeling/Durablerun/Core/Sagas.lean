import Durablerun.Store.Reads

/-!
# The records of a saga

A step that registers a rollback has a start marker, whose state is the step's index, and a rollback
that failed has an attempt record, which counts its failed attempts. Both are read back from the
text that was stored, and each reads back as what was written.

Reference: `packages/core/src/sagas.ts`.
-/

namespace Durablerun

open Relational

/-! ## Counts -/

/-- `Number.MAX_SAFE_INTEGER`. -/
def MAX_SAFE_INTEGER : ℕ := 9007199254740991

/-- A natural number as a JSON value. -/
def countJson (n : ℕ) : Js.Value := .number (Js.decimal n)

/-- The count a JSON value is: a number, a safe integer and at least one. However the number is
written, it counts what its double is. -/
def countOf : Js.Value → Option ℕ
  | .number literal => do
    let n ← (Js.toNumber literal).safeInteger
    if 1 ≤ n then return n.toNat else none
  | .null | .bool _ | .string _ | .array _ | .object _ => none

/-- A count reads back as itself. -/
theorem countOf_countJson {n : ℕ} (h : 1 ≤ n) (hmax : n ≤ MAX_SAFE_INTEGER) :
    countOf (countJson n) = some n := by
  have hmax' : n ≤ 2 ^ 53 - 1 := hmax
  have hsafe : (Js.Number.finite (n : ℚ)).safeInteger = some (n : ℤ) :=
    Js.Number.safeInteger_intCast hmax'
  have hpos : (1 : ℤ) ≤ n := by exact_mod_cast h
  unfold countOf countJson
  simp only [Js.toNumber_decimal (hmax'.trans (Nat.sub_le _ _)), hsafe, Option.bind_eq_bind,
    Option.bind_some, if_pos hpos]
  rfl

/-- A count that is read is at least one, and no more than a count can be. -/
theorem countOf_bounds {value : Js.Value} {n : ℕ} (h : countOf value = some n) :
    1 ≤ n ∧ n ≤ MAX_SAFE_INTEGER := by
  cases value with
  | number literal =>
    obtain ⟨m, hm, h⟩ := Option.bind_eq_some_iff.mp h
    split at h
    · rename_i hpos
      obtain rfl := Option.some.inj h
      unfold Js.Number.safeInteger at hm
      split at hm
      · split at hm
        · rename_i hsafe
          obtain rfl := Option.some.inj hm
          have hmax := hsafe.2
          unfold MAX_SAFE_INTEGER
          omega
        · cases hm
      · cases hm
    · cases h
  | null | bool | string | array | object => cases h

/-! ## Start markers -/

/-- The state of a start marker. An index counts the steps a task started, so it is a natural number
here. -/
def encodeStartIndex (index : ℕ) : String := Js.text (countJson index).text

/-- A start marker's index, when its state is a positive one. -/
def decodeStartIndex (stateJson : String) : Option ℕ := do
  countOf (← Js.parse (Js.utf16 stateJson))

/-- A start index reads back as itself. -/
theorem decodeStartIndex_encode {index : ℕ} (h : 1 ≤ index) (hmax : index ≤ MAX_SAFE_INTEGER) :
    decodeStartIndex (encodeStartIndex index) = some index := by
  have hwritten : (countJson index).Written := .number (Js.numberText_decimal index)
  unfold decodeStartIndex encodeStartIndex
  rw [hwritten.parse_kept]
  exact countOf_countJson h hmax

/-- Two start indexes are written in two ways. -/
theorem encodeStartIndex_injective : Function.Injective encodeStartIndex := by
  intro index index' h
  have hparse : ∀ n, Js.parse (Js.utf16 (encodeStartIndex n)) = some (countJson n) := fun n =>
    Js.Value.Written.parse_kept (.number (Js.numberText_decimal n))
  have hsame := hparse index
  rw [h, hparse index'] at hsame
  exact (Js.decimal_injective (Js.Value.number.inj (Option.some.inj hsame))).symm

/-! ## Attempt records -/

/-- `rollbackTriesName`. -/
def rollbackTriesName (stepKey : String) : String := SAGA_TRIES_PREFIX ++ stepKey

/-- The value `encodeRollbackTry` serializes. -/
def RollbackTry.json (record : RollbackTry) : Js.Value :=
  .object [(Js.units "tries", countJson record.tries),
    (Js.units "errorJson", .string (Js.utf16 record.errorJson))]

/-- `encodeRollbackTry`. -/
def encodeRollbackTry (record : RollbackTry) : String := Js.text record.json.text

/-- `decodeRollbackTry`: nothing when the text is not a record. -/
def decodeRollbackTry (stateJson : String) : Option RollbackTry := do
  let value ← Js.parse (Js.utf16 stateJson)
  let tries ← countOf (← value.member (Js.units "tries"))
  let .string errorJson ← value.member (Js.units "errorJson") | none
  return ⟨tries, Js.text errorJson⟩

/-- A record's count is one it can hold. -/
def RollbackTry.Counts (record : RollbackTry) : Prop :=
  1 ≤ record.tries ∧ record.tries ≤ MAX_SAFE_INTEGER
deriving Decidable

/-- A record reads back as it was written. -/
theorem decodeRollbackTry_encode {record : RollbackTry} (h : record.Counts) :
    decodeRollbackTry (encodeRollbackTry record) = some record := by
  obtain ⟨tries, errorJson⟩ := record
  obtain ⟨hpos, hmax⟩ := h
  have hwritten : (RollbackTry.json ⟨tries, errorJson⟩).Written := by
    refine .object fun m hm => ?_
    obtain rfl | hm := List.mem_cons.mp hm
    · exact .number (Js.numberText_decimal tries)
    · obtain rfl := List.mem_singleton.mp hm
      exact .string _
  have htries : (RollbackTry.json ⟨tries, errorJson⟩).member (Js.units "tries") =
      some (countJson tries) := rfl
  have herror : (RollbackTry.json ⟨tries, errorJson⟩).member (Js.units "errorJson") =
      some (.string (Js.utf16 errorJson)) := rfl
  unfold decodeRollbackTry encodeRollbackTry
  rw [hwritten.parse_kept]
  simp only [Option.bind_eq_bind, Option.bind_some, htries, herror, countOf_countJson hpos hmax,
    Js.text_utf16]
  rfl

/-- A record that is read counts what a record can hold. -/
theorem decodeRollbackTry_counts {stateJson : String} {record : RollbackTry}
    (h : decodeRollbackTry stateJson = some record) : record.Counts := by
  simp only [decodeRollbackTry, Option.bind_eq_bind, Option.bind_eq_some_iff] at h
  obtain ⟨value, _, count, _, tries, htries, errorValue, _, h⟩ := h
  cases errorValue with
  | string errorJson =>
    obtain rfl := Option.some.inj h
    exact countOf_bounds htries
  | null | bool | number | array | object => cases h

/-- `nextRollbackTry`: one attempt past the last one stored, up to the largest count a record
holds. -/
def nextRollbackTry (stepKey errorJson : String) (lastStateJson : Option String) :
    CheckpointWrite :=
  let last := lastStateJson.bind decodeRollbackTry
  let tries := match last with
    | none => 1
    | some record => if record.tries + 1 ≤ MAX_SAFE_INTEGER then record.tries + 1 else record.tries
  ⟨rollbackTriesName stepKey, encodeRollbackTry ⟨tries, errorJson⟩⟩

/-- The record a failed rollback commits is read as one. -/
theorem decodeRollbackTry_next (stepKey errorJson : String) (lastStateJson : Option String) :
    ∃ record, decodeRollbackTry (nextRollbackTry stepKey errorJson lastStateJson).stateJson =
      some record := by
  refine ⟨_, decodeRollbackTry_encode ?_⟩
  cases hlast : lastStateJson.bind decodeRollbackTry with
  | none => exact ⟨le_rfl, show 1 ≤ MAX_SAFE_INTEGER by decide⟩
  | some record =>
    obtain ⟨text, _, hread⟩ := Option.bind_eq_some_iff.mp hlast
    obtain ⟨hpos, hmax⟩ := decodeRollbackTry_counts hread
    simp only
    split
    · rename_i hnext
      exact ⟨Nat.succ_pos _, hnext⟩
    · exact ⟨hpos, hmax⟩

/-- `failedRollbackRecord`: the record, counted from the one that is stored. -/
def failedRollbackRecord (db : Db) (taskId stepKey errorJson : String) : CheckpointWrite :=
  nextRollbackTry stepKey errorJson ((db.checkpoints.rows.find? fun c =>
    c.taskId = taskId ∧ c.checkpointName = rollbackTriesName stepKey).map Checkpoint.state)

end Durablerun
