import Durablerun.Lib.JsObject
import Durablerun.Lib.JsText
import Mathlib.Data.Finset.Insert

/-!
# Task values

`serializeTaskValue` copies a value of the JavaScript data model into data of its own and writes that
as JSON. Objects are read through a heap, so one may be shared, or its own ancestor; the ancestors of
the object being read are kept in a set that every exit restores.

The finite numbers are any type, with the text `JSON.stringify` writes for one and the number
`JSON.parse` reads from a text. The texts of dates are any.

Reference: `packages/core/src/validate.ts`.
-/

namespace Durablerun

open Js

/-! ## The data model -/

/-- A number: finite, the negative zero apart, or not. -/
inductive TaskNumber (F : Type) where
  | finite (x : F)
  | negativeZero
  | notFinite
  deriving DecidableEq

/-- A value, as `typeof` tells it. Of functions, symbols and bigints nothing more is read. -/
inductive TaskValue (F : Type) where
  | undefined
  | null
  | bool (b : Bool)
  | number (x : TaskNumber F)
  | string (s : Str)
  | function
  | symbol
  | bigint
  | ref (address : ℕ)

/-- An object: a date with its instant if it has one, an array with its holes, an object whose
prototype is `Object.prototype` or none, or another one. -/
inductive TaskObject (F : Type) where
  | date (epochMs : Option ℤ)
  | array (items : List (Option (TaskValue F)))
  | object (properties : Properties (TaskValue F))
  | foreign

/-- The objects there are. -/
abbrev Heap (F : Type) := List (TaskObject F)

def Heap.get {F : Type} (heap : Heap F) (address : ℕ) : TaskObject F := heap.getD address .foreign

/-! ## Snapshots -/

/-- Data owned by the runtime, as `JSON.stringify` receives it. -/
inductive TaskData (F : Type) where
  | null
  | bool (b : Bool)
  | number (x : TaskNumber F)
  | string (s : Str)
  | array (items : List (TaskData F))
  | object (properties : List (Str × TaskData F))

/-- A loop that stops at the first error, over a state that every turn may change. -/
def forEach {α β σ : Type} (body : α → σ → Option β × σ) : List α → σ → Option (List β) × σ
  | [], s => (some [], s)
  | a :: rest, s =>
    match body a s with
    | (none, s) => (none, s)
    | (some b, s) =>
      match forEach body rest s with
      | (none, s) => (none, s)
      | (some bs, s) => (some (b :: bs), s)

variable {F : Type}

/-- What copies a value under its ancestors: none where it throws, and a copy that is none for
`undefined`. -/
abbrev Snapshot (F : Type) := TaskValue F → Finset ℕ → Option (Option (TaskData F)) × Finset ℕ

/-- A turn over an array: a hole is read as undefined, and undefined is null in an array. -/
def copyItem (snapshot : Snapshot F) (item : Option (TaskValue F)) (ancestors : Finset ℕ) :
    Option (TaskData F) × Finset ℕ :=
  let copy := snapshot (item.getD .undefined) ancestors
  (copy.1.map fun data => data.getD .null, copy.2)

/-- A turn over an object: undefined defines no property. -/
def copyProperty (snapshot : Snapshot F) (property : Str × TaskValue F) (ancestors : Finset ℕ) :
    Option (Option (Str × TaskData F)) × Finset ℕ :=
  let copy := snapshot property.2 ancestors
  (copy.1.map fun data => data.map fun data => (property.1, data), copy.2)

/-- `snapshotTaskValueWithStringDomain` of an opaque value. The fuel bounds the nesting. -/
def snapshotTaskValue (isoString : ℤ → Str) (heap : Heap F) : ℕ → Snapshot F
  | 0, _, ancestors => (none, ancestors)
  | fuel + 1, value, ancestors =>
    match value with
    | .string s => (some (some (.string s)), ancestors)
    | .function | .symbol | .bigint => (none, ancestors)
    | .undefined => (some none, ancestors)
    | .null => (some (some .null), ancestors)
    | .bool b => (some (some (.bool b)), ancestors)
    | .number x => (some (some (.number x)), ancestors)
    | .ref address =>
      match heap.get address with
      | .date (some epochMs) => (some (some (.string (isoString epochMs))), ancestors)
      | .date none => (some (some .null), ancestors)
      | .foreign => (none, ancestors)
      | .array items =>
        if address ∈ ancestors then (none, ancestors)
        else
          let owned := forEach (copyItem (snapshotTaskValue isoString heap fuel)) items
            (insert address ancestors)
          (owned.1.map fun items => some (.array items), owned.2.erase address)
      | .object properties =>
        if address ∈ ancestors then (none, ancestors)
        else
          let owned := forEach (copyProperty (snapshotTaskValue isoString heap fuel))
            (objectKeys properties.list) (insert address ancestors)
          (owned.1.map fun entries => some (.object (defineProperties entries.reduceOption)),
            owned.2.erase address)

/-! ## JSON -/

mutual

/-- The value `JSON.stringify` writes: a number that is not finite as null, and the negative zero as
zero. -/
def TaskData.json (literal : F → Str) : TaskData F → Value
  | .null => .null
  | .bool b => .bool b
  | .number (.finite x) => .number (literal x)
  | .number .negativeZero => .number (units "0")
  | .number .notFinite => .null
  | .string s => .string s
  | .array items => .array (TaskData.jsonItems literal items)
  | .object properties => .object (objectKeys (TaskData.jsonMembers literal properties))

def TaskData.jsonItems (literal : F → Str) : List (TaskData F) → List Value
  | [] => []
  | item :: rest => item.json literal :: TaskData.jsonItems literal rest

def TaskData.jsonMembers (literal : F → Str) : List (Str × TaskData F) → List (Str × Value)
  | [] => []
  | (key, data) :: rest => (key, data.json literal) :: TaskData.jsonMembers literal rest

end

mutual

/-- What `JSON.parse` makes of a value it read: objects of their own, each after what it holds. -/
def allocate (number : Str → TaskNumber F) : Value → Heap F → TaskValue F × Heap F
  | .null, heap => (.null, heap)
  | .bool b, heap => (.bool b, heap)
  | .number literal, heap => (.number (number literal), heap)
  | .string s, heap => (.string s, heap)
  | .array items, heap =>
    let (values, heap) := allocateItems number items heap
    (.ref heap.length, heap ++ [.array (values.map some)])
  | .object members, heap =>
    let (values, heap) := allocateMembers number members heap
    (.ref heap.length, heap ++ [.object (.of values)])

def allocateItems (number : Str → TaskNumber F) : List Value → Heap F → List (TaskValue F) × Heap F
  | [], heap => ([], heap)
  | item :: rest, heap =>
    let (value, heap) := allocate number item heap
    let (values, heap) := allocateItems number rest heap
    (value :: values, heap)

def allocateMembers (number : Str → TaskNumber F) :
    List (Str × Value) → Heap F → List (Str × TaskValue F) × Heap F
  | [], heap => ([], heap)
  | (key, member) :: rest, heap =>
    let (value, heap) := allocate number member heap
    let (values, heap) := allocateMembers number rest heap
    ((key, value) :: values, heap)

end

/-- What a JavaScript engine writes and reads. -/
structure Engine (F : Type) where
  zero : F
  /-- The text `JSON.stringify` writes for a finite number. -/
  literal : F → Str
  /-- The number `JSON.parse` reads from a literal. -/
  number : Str → TaskNumber F
  /-- `toISOString` of an instant. -/
  isoString : ℤ → Str

/-- `serializeTaskValue`, or the message of the `FatalTaskError` it throws. -/
def serializeTaskValue (engine : Engine F) (heap : Heap F) (what : Str) (value : TaskValue F) :
    Except Str Str :=
  let root := match value with
    | .undefined => .null
    | value => value
  match (snapshotTaskValue engine.isoString heap (heap.length + 1) root ∅).1 with
  | some (some data) => .ok (data.json engine.literal).text
  | _ => .error (what ++ units " is not a JSON value")

/-- `userJsonValue` of a text. -/
def userJsonValue (engine : Engine F) (what json : Str) : Except Str Str :=
  match parse json with
  | none => .error (what ++ units " is not valid JSON")
  | some value =>
    let (value, heap) := allocate engine.number value []
    serializeTaskValue engine heap what value

end Durablerun
