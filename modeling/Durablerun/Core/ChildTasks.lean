import Durablerun.Core.Strings

/-!
# The keys of child spawns

A child is spawned under an idempotency key the store builds from its parent and the call site. The
key is read back loosely, and the answer kept only when the builder writes this very key from it, so
the key names exactly one parent and one call site, and retention can trust it.

Reference: `packages/core/src/child-tasks.ts`.
-/

namespace Durablerun

open Js

/-- The text is one the language admits as a string. -/
def IsString (s : Str) : Prop := s.length ≤ MAX_STRING_LENGTH
deriving Decidable

/-! ## Building and reading a key -/

/-- `RESERVED_EVENT_PREFIX`, the first unit of the engine's own names. -/
def ENGINE_PREFIX : Str := units "$"

def CHILD_SPAWN_KEY_PREFIX : Str := ENGINE_PREFIX ++ units "spawn:"

/-- `childSpawnKey`: the parent's length comes first, and says where the parent ends. -/
def childSpawnKey (parentTaskId replayKey : Str) : Str :=
  CHILD_SPAWN_KEY_PREFIX ++ (decimal parentTaskId.length ++ 58 :: (parentTaskId ++ 58 :: replayKey))

/-- `parseChildSpawnKey`. -/
def parseChildSpawnKey (key : Str) : Option (Str × Str) :=
  if ¬ startsWith key CHILD_SPAWN_KEY_PREFIX then none
  else
    let lengthEnd := indexOf key 58 CHILD_SPAWN_KEY_PREFIX.length
    let written := slice key (.finite CHILD_SPAWN_KEY_PREFIX.length) (.finite lengthEnd)
    let parentStart := Number.finite (lengthEnd + 1 : ℤ)
    let parentEnd := parentStart.add (toNumber written)
    let parentTaskId := slice key parentStart parentEnd
    let replayKey := sliceFrom key (parentEnd.add (.finite 1))
    if childSpawnKey parentTaskId replayKey = key then some (parentTaskId, replayKey) else none

/-- Whose child a task is, as far as its key says. -/
inductive SpawningParent where
  | known (taskId : Option Str)
  | unknown
  deriving DecidableEq

/-- `spawningParent`. -/
def spawningParent : Option Str → SpawningParent
  | none => .known none
  | some key =>
    if ¬ startsWith key CHILD_SPAWN_KEY_PREFIX then .known none
    else
      match parseChildSpawnKey key with
      | none => .unknown
      | some (parentTaskId, _) => .known (some parentTaskId)

/-! ## The key a spawn stores -/

/-- What refuses a spawn's key. -/
inductive SpawnKeyError where
  | portRefusal (message : Str)
  | invalidDurableString (message : Str)
  deriving DecidableEq

/-- The parent a child spawn names. -/
structure ChildOf where
  parentTaskId : Str
  replayKey : Str

/-- The keys of a spawn's options. -/
structure SpawnKeyOptions where
  idempotencyKey : Option Str
  childOf : Option ChildOf

/-- `refuseReservedIdempotencyKey`. -/
def refuseReservedIdempotencyKey (operation : String) (key : Str) : Except SpawnKeyError Unit :=
  if startsWith key ENGINE_PREFIX then
    .error (.portRefusal (units operation ++ units " idempotencyKey '" ++ key ++
      units "' is reserved: keys that start with '$' belong to the engine"))
  else .ok ()

/-- `spawnIdempotencyKey`. -/
def spawnIdempotencyKey (opts : SpawnKeyOptions) : Except SpawnKeyError (Option Str) :=
  match opts.childOf, opts.idempotencyKey with
  | some _, some _ =>
    .error (.portRefusal (units "spawn takes idempotencyKey or childOf, never both"))
  | some childOf, none => do
    let childKey := childSpawnKey childOf.parentTaskId childOf.replayKey
    (requireIdentifiersFit (units
      "childOf.replayKey, as the stored child key, which also holds the parent task id,")
      childKey).mapError .invalidDurableString
    return some childKey
  | none, none => return none
  | none, some callerKey => do
    refuseReservedIdempotencyKey "spawn" callerKey
    return some callerKey

/-! ## A key names one parent and one call site -/

variable {s t r key : Str}

/-- A child's replay key starts with the prefix of them all. -/
theorem startsWith_childSpawnKey (t r : Str) :
    startsWith (childSpawnKey t r) CHILD_SPAWN_KEY_PREFIX :=
  startsWith_iff.mpr (List.prefix_append _ _)

/-- The length ends at the first colon after the prefix. -/
theorem indexOf_childSpawnKey (t r : Str) :
    indexOf (childSpawnKey t r) 58 CHILD_SPAWN_KEY_PREFIX.length =
      (CHILD_SPAWN_KEY_PREFIX.length + (decimal t.length).length : ℕ) := by
  have hfind : (decimal t.length ++ 58 :: (t ++ 58 :: r)).findIdx? (· = 58) =
      some (decimal t.length).length := by
    rw [List.findIdx?_append, List.findIdx?_eq_none_iff.mpr fun u hu => ?_]
    · simp [List.findIdx?_cons]
    · refine decide_eq_false ?_
      rintro rfl
      exact absurd (isDigit_of_mem_decimal hu) (by decide)
  unfold indexOf childSpawnKey
  rw [List.drop_left, hfind]
  exact (Nat.cast_add _ _).symm

/-- A key is read back as the pair it was built from. -/
theorem parse_childSpawnKey (h : IsString (childSpawnKey t r)) :
    parseChildSpawnKey (childSpawnKey t r) = some (t, r) := by
  set p := CHILD_SPAWN_KEY_PREFIX with hp
  set d := decimal t.length with hd
  have hkey : childSpawnKey t r = p ++ (d ++ 58 :: (t ++ 58 :: r)) := rfl
  have hlength : (childSpawnKey t r).length = p.length + d.length + 1 + t.length + 1 + r.length := by
    simp only [hkey, List.length_append, List.length_cons]
    omega
  -- The key is a string of the language, so its offsets are doubles that add without rounding.
  have hfits : p.length + d.length + 1 + t.length + 1 ≤ 2 ^ 53 := by
    unfold IsString MAX_STRING_LENGTH at h
    omega
  have hwritten : slice (childSpawnKey t r) (.finite (p.length : ℕ))
      (.finite (p.length + d.length : ℕ)) = d := by
    rw [hkey]
    exact slice_append p d _
  have hparent : slice (childSpawnKey t r) (.finite (p.length + d.length + 1 : ℕ))
      (.finite (p.length + d.length + 1 + t.length : ℕ)) = t := by
    have hsplit : childSpawnKey t r = (p ++ d ++ [58]) ++ (t ++ 58 :: r) := by simp [hkey]
    have hstart : (p ++ d ++ [58]).length = p.length + d.length + 1 := by
      simp only [List.length_append, List.length_singleton]
    rw [hsplit, ← hstart]
    exact slice_append _ t _
  have hreplay : sliceFrom (childSpawnKey t r)
      (.finite (p.length + d.length + 1 + t.length + 1 : ℕ)) = r := by
    have hsplit : childSpawnKey t r = (p ++ d ++ [58] ++ t ++ [58]) ++ r := by simp [hkey]
    have hstart : (p ++ d ++ [58] ++ t ++ [58]).length =
        p.length + d.length + 1 + t.length + 1 := by
      simp only [List.length_append, List.length_singleton]
    rw [hsplit, ← hstart]
    exact sliceFrom_append _ r
  -- The digits hold no colon, so the first one past the marker ends the length.
  have hindex : indexOf (childSpawnKey t r) 58 p.length = (p.length + d.length : ℕ) :=
    indexOf_childSpawnKey t r
  unfold parseChildSpawnKey
  rw [if_neg (not_not.mpr (startsWith_childSpawnKey t r))]
  simp only [← hp, hindex, Int.cast_natCast, hwritten]
  rw [hd, toNumber_decimal (by omega), ← hd]
  have hstart : (((p.length + d.length : ℕ) + 1 : ℤ) : ℚ) = (p.length + d.length + 1 : ℕ) := by
    push_cast
    rfl
  have hend : (Number.finite (p.length + d.length + 1 : ℕ)).add (.finite t.length) =
      .finite (p.length + d.length + 1 + t.length : ℕ) := Number.add_nat (by omega)
  have hnext : (Number.finite (p.length + d.length + 1 + t.length : ℕ)).add (.finite (1 : ℕ)) =
      .finite (p.length + d.length + 1 + t.length + 1 : ℕ) := Number.add_nat (by omega)
  rw [Nat.cast_one] at hnext
  rw [hstart, hend, hnext, hparent, hreplay, if_pos rfl]

/-- What is read back builds the key. -/
theorem childSpawnKey_of_parse (h : parseChildSpawnKey s = some (t, r)) : s = childSpawnKey t r := by
  unfold parseChildSpawnKey at h
  split at h
  · cases h
  · simp only at h
    split at h
    · rename_i hkey
      obtain ⟨rfl, rfl⟩ := Prod.mk.inj (Option.some.inj h)
      exact hkey.symm
    · cases h

/-- A durable identifier is a string. -/
theorem isString_of_fits (h : fitsCharacters s IDENTIFIER_CHARACTERS) : IsString s := by
  have hle := (codePoints_length s).2
  unfold fitsCharacters IDENTIFIER_CHARACTERS at h
  rw [countCharacters_length] at h
  unfold IsString MAX_STRING_LENGTH
  omega

/-- A child's replay key names the task that spawned it. -/
theorem spawningParent_childSpawnKey (h : IsString (childSpawnKey t r)) :
    spawningParent (some (childSpawnKey t r)) = .known (some t) := by
  simp only [spawningParent, startsWith_childSpawnKey t r, parse_childSpawnKey h, not_true_eq_false,
    if_false]

/-- A name of the engine's is no key of a caller's. -/
theorem startsWith_engine (h : startsWith s CHILD_SPAWN_KEY_PREFIX) : startsWith s ENGINE_PREFIX :=
  startsWith_iff.mpr ((List.prefix_append _ _).trans (startsWith_iff.mp h))

/-- What a spawn stores as its key: the child's key of its parent, or a caller's that is none. -/
theorem spawnIdempotencyKey_cases {opts : SpawnKeyOptions} {stored : Option Str}
    (h : spawnIdempotencyKey opts = .ok stored) :
    (∃ childOf key, opts.childOf = some childOf ∧ stored = some key ∧ IsString key ∧
      key = childSpawnKey childOf.parentTaskId childOf.replayKey) ∨
      (opts.childOf = none ∧ ∀ key ∈ stored, ¬ startsWith key ENGINE_PREFIX) := by
  unfold spawnIdempotencyKey at h
  split at h
  · cases h
  · rename_i childOf hchild _
    by_cases hfits : fitsCharacters (childSpawnKey childOf.parentTaskId childOf.replayKey)
        IDENTIFIER_CHARACTERS
    · simp only [requireIdentifiersFit, if_pos hfits] at h
      obtain rfl := Except.ok.inj h
      exact Or.inl ⟨childOf, _, hchild, rfl, isString_of_fits hfits, rfl⟩
    · simp only [requireIdentifiersFit, if_neg hfits] at h
      cases h
  · rename_i hchild _
    obtain rfl := Except.ok.inj h
    exact Or.inr ⟨hchild, fun key hkey => absurd hkey (Option.not_mem_none key)⟩
  · rename_i callerKey hchild _
    by_cases hreserved : startsWith callerKey ENGINE_PREFIX
    · simp only [refuseReservedIdempotencyKey, if_pos hreserved] at h
      cases h
    · simp only [refuseReservedIdempotencyKey, if_neg hreserved] at h
      obtain rfl := Except.ok.inj h
      refine Or.inr ⟨hchild, fun key hkey => ?_⟩
      obtain rfl := Option.some.inj hkey
      exact hreserved

/-- A child spawn's key is read back as the pair it was built from, and no other string is read as
one; so two child spawns share a key only when they share parent and call site, the parent read from
a stored key is the one that spawned, and no caller's key is a child's. -/
theorem childSpawnKey_round_trip :
    (∀ t r, IsString (childSpawnKey t r) → parseChildSpawnKey (childSpawnKey t r) = some (t, r)) ∧
    (∀ s t r, IsString s → (parseChildSpawnKey s = some (t, r) ↔ s = childSpawnKey t r)) ∧
    (∀ t r t' r', IsString (childSpawnKey t r) → childSpawnKey t r = childSpawnKey t' r' →
      t = t' ∧ r = r') ∧
    (∀ opts stored, spawnIdempotencyKey opts = .ok stored →
      spawningParent stored = .known (opts.childOf.map ChildOf.parentTaskId)) ∧
    ∀ opts key, opts.childOf = none → spawnIdempotencyKey opts = .ok (some key) →
      ∀ t r, key ≠ childSpawnKey t r := by
  refine ⟨fun t r h => parse_childSpawnKey h, fun s t r h => ⟨childSpawnKey_of_parse, ?_⟩,
    fun t r t' r' h heq => ?_, fun opts stored h => ?_, fun opts key hnone h t r => ?_⟩
  · rintro rfl
    exact parse_childSpawnKey h
  · have hread := parse_childSpawnKey h
    rw [heq, parse_childSpawnKey (heq ▸ h)] at hread
    obtain ⟨rfl, rfl⟩ := Prod.mk.inj (Option.some.inj hread)
    exact ⟨rfl, rfl⟩
  · obtain ⟨childOf, key, hchild, rfl, hstring, rfl⟩ | ⟨hchild, hfree⟩ := spawnIdempotencyKey_cases h
    · rw [spawningParent_childSpawnKey hstring, hchild]
      rfl
    · rw [hchild]
      cases stored with
      | none => rfl
      | some key => exact if_pos fun hstarts => hfree key rfl (startsWith_engine hstarts)
  · rintro rfl
    obtain ⟨childOf, _, hchild, _⟩ | ⟨_, hfree⟩ := spawnIdempotencyKey_cases h
    · cases hnone.symm.trans hchild
    · exact hfree _ rfl (startsWith_engine (startsWith_childSpawnKey t r))

/-- A parent whose id holds a colon and digits, and a call site that looks like a key. -/
theorem childSpawnKey_round_trip_colons :
    parseChildSpawnKey (childSpawnKey (units "3:t") (units "$spawn:1:x:")) =
      some (units "3:t", units "$spawn:1:x:") :=
  childSpawnKey_round_trip.1 _ _ (by decide)

end Durablerun
