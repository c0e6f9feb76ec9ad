import Durablerun.Core.ChildTasks

/-!
# The keys of durable calls

A pass derives the key of each durable call from the kind of the call, the name the task passed, and
how often it passed that name before. The name holds no `#` and no leading `$`, so the key spells
the three in one way only, and no key is one of the engine's own names.

Reference: `packages/sdk/src/context.ts`.
-/

namespace Durablerun

open Js

/-! ## Names -/

/-- Some surrogate is alone. -/
def loneSurrogate : Str → Bool
  | [] => false
  | u :: s =>
    if isHigh u then
      match s with
      | [] => true
      | v :: rest => if isLow v then loneSurrogate rest else true
    else if isLow u then true
    else loneSurrogate s

/-- `storageStringRoundTrips`. -/
def storageStringRoundTrips (raw : Str) : Prop := 0 ∉ raw ∧ loneSurrogate raw = false
deriving Decidable

/-- The name uses no reserved character. -/
def Unreserved (raw : Str) : Prop := 35 ∉ raw ∧ ¬ startsWith raw ENGINE_PREFIX
deriving Decidable

/-- A name of the task's. -/
structure UserName where
  value : Str
  unreserved : Unreserved value
  roundTrips : storageStringRoundTrips value

/-- `UserName.parse`, or the text of the error that fails the task. -/
def UserName.parse (what raw : Str) : Except Str UserName :=
  if hname : Unreserved raw then
    if htrips : storageStringRoundTrips raw then .ok ⟨raw, hname, htrips⟩
    else .error (what ++ units " '" ++ raw ++ units
      "' contains characters that do not round-trip through storage (NUL or a lone surrogate)")
  else .error (what ++ units " '" ++ raw ++
    units "' uses reserved characters ('#' anywhere, '$' prefix)")

/-- What a durable call's key is made from: a step's own name, or an `EngineKey`. -/
inductive KeyName where
  | step (name : UserName)
  | sleep
  | sleepUntil
  | awaitEvent (name : UserName)
  | spawn (taskName : UserName)
  | awaitTask (taskId : UserName)

def KeyName.value : KeyName → Str
  | step name => name.value
  | sleep => units "$sleep"
  | sleepUntil => units "$sleep-until"
  | awaitEvent name => units "$await:" ++ name.value
  | spawn taskName => units "$spawn:" ++ taskName.value
  | awaitTask taskId => units "$await-task:" ++ taskId.value

/-! ## storageName -/

/-- `SAGA_STEP_KEY_CHARACTERS`. -/
def SAGA_STEP_KEY_CHARACTERS : ℕ := 239

/-- `requireRoom`, or the text of the error that fails the task. -/
def requireRoom (what key : Str) (room : ℕ) : Except Str Unit :=
  if fitsCharacters key room then .ok ()
  else if room = IDENTIFIER_CHARACTERS then
    .error (what ++ units (" is too long: it would be stored under a key longer than the 255 " ++
      "characters a durable identifier holds"))
  else
    .error (what ++ units (" is too long for a step that registers a rollback: its key would be " ++
      "longer than ") ++ decimal room ++ units (" characters, which is what leaves room for the " ++
      "saga's own names in the 255 a durable identifier holds"))

/-- One call for a key, and what the pass holds when it is made: the keys with a memo, those of
steps that started, and whether the task is rolling back. -/
structure KeyCall where
  name : KeyName
  what : Str
  room : ℕ
  seen : Str → Bool
  started : Str → Bool
  rollingBack : Bool

/-- How often each name was used. -/
abbrev NameUses := Str → ℕ

/-- The key of a use of a name: the first is the name itself. -/
def keyOf (raw : Str) (use : ℕ) : Str := if use = 1 then raw else raw ++ 35 :: decimal use

/-- `storageName`: the uses it leaves, and the key or the text of the error that fails the task. -/
def storageName (nameUses : NameUses) (call : KeyCall) : NameUses × Except Str Str :=
  let raw := call.name.value
  let use := nameUses raw + 1
  let nameUses := fun name => if name = raw then use else nameUses name
  let key := keyOf raw use
  (nameUses,
    if call.seen key then .ok key
    else
      let started := call.started key
      if started ∧ call.rollingBack then .ok key
      else do
        requireRoom call.what key (if started then IDENTIFIER_CHARACTERS else call.room)
        return key)

/-- What the calls of a pass are answered, in order. -/
def storageNames (nameUses : NameUses) : List KeyCall → List (Except Str Str)
  | [] => []
  | call :: calls =>
    (storageName nameUses call).2 :: storageNames (storageName nameUses call).1 calls

/-! ## The engine's own names -/

def ORDER_PREFIX : Str := units "$order:"

/-- The prefixes of a saga's names. -/
def SAGA_PREFIXES : List Str := [units "$started:", units "$rollback:", units "$rollback-tries:"]

/-- The names that are the engine's own. -/
def ENGINE_NAMES : List Str := [units "$rolling-back", ORDER_PREFIX] ++ SAGA_PREFIXES

/-- A saga's prefix ends at its only colon. -/
theorem sagaPrefix_eq : ∀ p ∈ SAGA_PREFIXES, p = p.dropLast ++ [58] ∧ 58 ∉ p.dropLast := by decide

/-- A saga's name tells its prefix and its key. -/
theorem sagaName_injective {p q a b : Str} (hp : p ∈ SAGA_PREFIXES) (hq : q ∈ SAGA_PREFIXES)
    (h : p ++ a = q ++ b) : p = q ∧ a = b := by
  obtain ⟨hpe, hpc⟩ := sagaPrefix_eq p hp
  obtain ⟨hqe, hqc⟩ := sagaPrefix_eq q hq
  rw [hpe, hqe, List.append_assoc, List.append_assoc] at h
  obtain ⟨hpq, hab⟩ := split_unique hpc hqc h
  refine ⟨?_, hab⟩
  rw [hpe, hqe, hpq]

/-! ## A key spells its call -/

/-- No name of the task's starts with the engine's prefix. -/
theorem UserName.value_ne (name : UserName) (s : Str) : name.value ≠ 36 :: s :=
  fun h => name.unreserved.2 (startsWith_iff.mpr ⟨s, h.symm⟩)

/-- A user's name is its text. -/
theorem UserName.ext {m n : UserName} (h : m.value = n.value) : m = n := by
  cases m
  cases n
  cases h
  rfl

/-- A key's name is its text. -/
theorem KeyName.value_injective : Function.Injective KeyName.value := by
  intro m n h
  cases m with
  | step name =>
    cases n with
    | step name' => exact congrArg _ (UserName.ext h)
    | sleep | sleepUntil | awaitEvent | spawn | awaitTask => exact absurd h (name.value_ne _)
  | sleep =>
    cases n with
    | step name' => exact absurd h.symm (name'.value_ne _)
    | sleep => rfl
    | sleepUntil | awaitEvent | spawn | awaitTask => simp [value, units] at h
  | sleepUntil =>
    cases n with
    | step name' => exact absurd h.symm (name'.value_ne _)
    | sleepUntil => rfl
    | sleep | awaitEvent | spawn | awaitTask => simp [value, units] at h
  | awaitEvent name =>
    cases n with
    | step name' => exact absurd h.symm (name'.value_ne _)
    | awaitEvent name' => exact congrArg _ (UserName.ext (List.append_cancel_left h))
    | sleep | sleepUntil | spawn | awaitTask => simp [value, units] at h
  | spawn name =>
    cases n with
    | step name' => exact absurd h.symm (name'.value_ne _)
    | spawn name' => exact congrArg _ (UserName.ext (List.append_cancel_left h))
    | sleep | sleepUntil | awaitEvent | awaitTask => simp [value, units] at h
  | awaitTask name =>
    cases n with
    | step name' => exact absurd h.symm (name'.value_ne _)
    | awaitTask name' => exact congrArg _ (UserName.ext (List.append_cancel_left h))
    | sleep | sleepUntil | awaitEvent | spawn => simp [value, units] at h

/-- No name holds the unit a counter follows. -/
theorem KeyName.not_mem_value (n : KeyName) : 35 ∉ n.value := by
  cases n with
  | step name => exact name.unreserved.1
  | sleep | sleepUntil => decide
  | awaitEvent name | spawn name | awaitTask name =>
    refine fun h => (List.mem_append.mp h).elim ?_ name.unreserved.1
    decide

/-- The key of a use of a name tells both. -/
theorem keyOf_injective {m n : KeyName} {use use' : ℕ} (h : keyOf m.value use = keyOf n.value use') :
    m = n ∧ use = use' := by
  have hm := m.not_mem_value
  have hn := n.not_mem_value
  unfold keyOf at h
  split at h
  · rename_i huse
    split at h
    · rename_i huse'
      exact ⟨KeyName.value_injective h, huse.trans huse'.symm⟩
    · exact absurd (h ▸ List.mem_append_right _ List.mem_cons_self) hm
  · split at h
    · exact absurd (h ▸ List.mem_append_right _ List.mem_cons_self) hn
    · obtain ⟨hvalue, hdecimal⟩ := split_unique hm hn h
      exact ⟨KeyName.value_injective hvalue, decimal_injective hdecimal⟩

/-- A key starts as its name does. -/
theorem prefix_keyOf {raw : Str} (use : ℕ) : raw <+: keyOf raw use := by
  unfold keyOf
  split
  · exact List.prefix_rfl
  · exact List.prefix_append _ _

/-- No key starts with one of the engine's own names. -/
theorem keyOf_not_engine (n : KeyName) (use : ℕ) {e : Str} (he : e ∈ ENGINE_NAMES) :
    ¬ startsWith (keyOf n.value use) e := by
  intro h
  have hprefix := startsWith_iff.mp h
  -- An engine's name is told from every other kind by its first three units.
  have hkind : ∀ kind : Str, 3 ≤ kind.length → kind.take 3 ∉ ENGINE_NAMES.map (·.take 3) →
      ∀ name, n.value = kind ++ name → False := by
    intro kind hlength hkind name hvalue
    have hshort : e.take 3 <+: keyOf n.value use := (List.take_prefix 3 e).trans hprefix
    have hown : kind.take 3 <+: keyOf n.value use := by
      refine (List.take_prefix 3 kind).trans (List.IsPrefix.trans ?_ (prefix_keyOf use))
      exact hvalue ▸ List.prefix_append kind name
    have hthree : ∀ e ∈ ENGINE_NAMES, (e.take 3).length = 3 := by decide
    have hsame : kind.take 3 = e.take 3 := by
      refine List.IsPrefix.eq_of_length (List.prefix_of_prefix_length_le hown hshort ?_) ?_
      · rw [hthree e he, List.length_take_of_le hlength]
      · rw [hthree e he, List.length_take_of_le hlength]
    exact hkind (hsame ▸ List.mem_map_of_mem he)
  cases n with
  | step name =>
    have hdollar : ∀ e ∈ ENGINE_NAMES, [36] <+: e := by decide
    have hstart := (hdollar e he).trans hprefix
    cases hname : name.value with
    | nil =>
      have hkey : keyOf [] use = [] ∨ keyOf [] use = 35 :: decimal use := by
        unfold keyOf
        split <;> simp
      have hstart : [36] <+: keyOf [] use := hname ▸ hstart
      obtain hkey | hkey := hkey <;> rw [hkey] at hstart <;> simp at hstart
    | cons u rest =>
      have hfirst : [u] <+: keyOf name.value use :=
        List.IsPrefix.trans (hname ▸ ⟨rest, rfl⟩) (prefix_keyOf use)
      have hsame : [36] = [u] :=
        List.IsPrefix.eq_of_length (List.prefix_of_prefix_length_le hstart hfirst le_rfl) rfl
      obtain rfl := List.singleton_inj.mp hsame
      exact name.value_ne rest hname
  | sleep => exact hkind (units "$sleep") (by decide) (by decide) [] (List.append_nil _).symm
  | sleepUntil =>
    exact hkind (units "$sleep-until") (by decide) (by decide) [] (List.append_nil _).symm
  | awaitEvent name => exact hkind (units "$await:") (by decide) (by decide) name.value rfl
  | spawn name => exact hkind (units "$spawn:") (by decide) (by decide) name.value rfl
  | awaitTask name => exact hkind (units "$await-task:") (by decide) (by decide) name.value rfl

/-! ## The keys of a pass -/

variable {calls : List KeyCall} {nameUses : NameUses} {i j : ℕ} {key : Str}

/-- How often the calls used a name. -/
def usesOf (calls : List KeyCall) (raw : Str) : ℕ := calls.countP fun call => call.name.value = raw

/-- A call that is answered a key is answered the key of its name and of the uses before it. -/
theorem storageName_key {call : KeyCall} (h : (storageName nameUses call).2 = .ok key) :
    key = keyOf call.name.value (nameUses call.name.value + 1) := by
  unfold storageName at h
  simp only at h
  split at h
  · exact (Except.ok.inj h).symm
  · split at h
    · exact (Except.ok.inj h).symm
    · cases hroom : requireRoom call.what (keyOf call.name.value (nameUses call.name.value + 1))
        (if call.started (keyOf call.name.value (nameUses call.name.value + 1)) then
          IDENTIFIER_CHARACTERS else call.room) with
      | error text =>
        rw [hroom] at h
        cases h
      | ok _ =>
        rw [hroom] at h
        exact (Except.ok.inj h).symm

/-- The key a call was given is its name's, at the number of its use. -/
theorem storageNames_key (h : (storageNames nameUses calls)[i]? = some (.ok key)) :
    ∃ call, calls[i]? = some call ∧ key = keyOf call.name.value
      (nameUses call.name.value + usesOf (calls.take i) call.name.value + 1) := by
  induction calls generalizing nameUses i with
  | nil => cases h
  | cons call calls ih =>
    cases i with
    | zero => exact ⟨call, rfl, storageName_key (Option.some.inj h)⟩
    | succ i =>
      obtain ⟨later, hlater, rfl⟩ := ih h
      refine ⟨later, hlater, ?_⟩
      have huses : (storageName nameUses call).1 later.name.value +
          usesOf (calls.take i) later.name.value =
            nameUses later.name.value +
              usesOf ((call :: calls).take (i + 1)) later.name.value := by
        unfold storageName usesOf
        simp only [List.take_succ_cons, List.countP_cons, decide_eq_true_eq]
        by_cases hname : later.name.value = call.name.value
        · rw [if_pos hname, if_pos hname.symm, hname]
          omega
        · rw [if_neg hname, if_neg fun heq => hname heq.symm]
          omega
      rw [huses]

/-- A later use of a name is a use more. -/
theorem usesOf_lt {call : KeyCall} (hcall : calls[i]? = some call) (hij : i < j) :
    usesOf (calls.take i) call.name.value < usesOf (calls.take j) call.name.value := by
  obtain ⟨hi, rfl⟩ := List.getElem?_eq_some_iff.mp hcall
  have hsub : calls.take i ++ [calls[i]] <+: calls.take j := by
    rw [List.take_append_getElem hi]
    exact List.take_prefix_take_left hij
  have hle : (calls.take i ++ [calls[i]]).countP
      (fun c => decide (c.name.value = calls[i].name.value)) ≤ (calls.take j).countP
        (fun c => decide (c.name.value = calls[i].name.value)) := hsub.sublist.countP_le
  rw [List.countP_append, List.countP_singleton] at hle
  unfold usesOf
  simp only [decide_true, if_true] at hle
  omega

/-- The keys one pass allocates are distinct, each is spelled by the kind and name of its call and
by the uses of the name before it and spells them back, none is one of the engine's own names, and
no two saga names of two keys agree. -/
theorem storageNames_distinct (calls : List KeyCall) :
    (∀ (i j : ℕ) (key : Str), (storageNames (fun _ => 0) calls)[i]? = some (.ok key) →
      (storageNames (fun _ => 0) calls)[j]? = some (.ok key) → i = j) ∧
    (∀ (i : ℕ) (key : Str), (storageNames (fun _ => 0) calls)[i]? = some (.ok key) →
      (∃ call, calls[i]? = some call ∧
        key = keyOf call.name.value (usesOf (calls.take i) call.name.value + 1)) ∧
      ∀ e ∈ ENGINE_NAMES, ¬ startsWith key e) ∧
    (∀ (m n : KeyName) use use', keyOf m.value use = keyOf n.value use' → m = n ∧ use = use') ∧
    ∀ p ∈ SAGA_PREFIXES, ∀ q ∈ SAGA_PREFIXES, ∀ a b, p ++ a = q ++ b → p = q ∧ a = b := by
  refine ⟨fun i j key hi hj => ?_, fun i key hi => ?_, fun m n use use' h => keyOf_injective h,
    fun p hp q hq a b h => sagaName_injective hp hq h⟩
  · obtain ⟨call, hcall, rfl⟩ := storageNames_key hi
    obtain ⟨call', hcall', hkey⟩ := storageNames_key hj
    obtain ⟨hname, huses⟩ := keyOf_injective hkey
    rw [hname] at huses
    rcases lt_trichotomy i j with hlt | heq | hlt
    · have := usesOf_lt hcall hlt
      rw [hname] at this
      omega
    · exact heq
    · have := usesOf_lt hcall' hlt
      omega
  · obtain ⟨call, hcall, rfl⟩ := storageNames_key hi
    refine ⟨⟨call, hcall, ?_⟩, fun e he => keyOf_not_engine _ _ he⟩
    rw [Nat.zero_add]

/-- A pass that polls twice. -/
def polls : List KeyCall :=
  let poll : KeyCall := ⟨.step ⟨units "poll", by decide, by decide⟩, units "step name",
    IDENTIFIER_CHARACTERS, fun _ => false, fun _ => false, false⟩
  [poll, poll]

/-- Two polls of one name have two keys, neither of them the engine's. -/
theorem storageNames_distinct_polls :
    storageNames (fun _ => 0) polls = [.ok (units "poll"), .ok (units "poll#2")] ∧
      ∀ e ∈ ENGINE_NAMES, ¬ startsWith (units "poll#2") e :=
  have hnames : storageNames (fun _ => 0) polls = [.ok (units "poll"), .ok (units "poll#2")] := by
    decide
  ⟨hnames, ((storageNames_distinct polls).2.1 1 (units "poll#2") (by rw [hnames]; rfl)).2⟩

end Durablerun
