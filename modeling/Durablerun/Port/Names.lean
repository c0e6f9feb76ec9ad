import Durablerun.Port.Strings
import Durablerun.Core.Sagas
import Durablerun.Store.Course

/-!
# No stored name outgrows an identifier

What a port call stores in an identifier column is a string its check held, a name an entry derived
and held again, or an id the engine minted. Where every argument answers alike each time it is read,
every name the store ever holds is a durable string of no more than 255 characters.

Reference: `packages/core/src/port-strings.ts` and `packages/core/src/validate.ts`.
-/

namespace Durablerun

open Js Relational

/-! ## Durable strings -/

/-- A string every store keeps as it was passed, of no more characters than an identifier holds. -/
structure Identifier (raw : Str) : Prop where
  noNul : 0 ∉ raw
  wellFormed : WellFormed raw
  fits : fitsCharacters raw IDENTIFIER_CHARACTERS

variable {a raw : Str} {u v : UInt16}

/-- A unit between the two bounds is a surrogate, high or low. -/
theorem surrogate_iff (u : UInt16) :
    0xD800 ≤ u.toNat ∧ u.toNat ≤ 0xDFFF ↔ isHigh u ∨ isLow u := by
  unfold isHigh isLow
  omega

/-- A string has no lone surrogate where it is well formed. -/
theorem loneSurrogate_eq_false (s : Str) : loneSurrogate s = false ↔ WellFormed s := by
  unfold WellFormed
  fun_induction codePoints s with
  | case1 u v rest hpair ih =>
    have hpoint : ¬ (0xD800 ≤ pairPoint u v ∧ pairPoint u v ≤ 0xDFFF) := by
      unfold pairPoint
      omega
    rw [List.forall_mem_cons, and_iff_right hpoint, ← ih, loneSurrogate,
      if_pos hpair.1]
    simp only [if_pos hpair.2]
  | case2 u v rest hpair ih =>
    rw [List.forall_mem_cons, ← ih, loneSurrogate, surrogate_iff]
    by_cases hhigh : isHigh u
    · have hlow : ¬ isLow v := fun hlow => hpair ⟨hhigh, hlow⟩
      rw [if_pos hhigh]
      simp only [if_neg hlow]
      exact iff_of_false (fun heq => Bool.noConfusion heq) fun h => h.1 (Or.inl hhigh)
    · rw [if_neg hhigh]
      by_cases hlow : isLow u
      · rw [if_pos hlow]
        exact iff_of_false (fun heq => Bool.noConfusion heq) fun h => h.1 (Or.inr hlow)
      · rw [if_neg hlow, and_iff_right (not_or.mpr ⟨hhigh, hlow⟩)]
  | case3 u =>
    rw [List.forall_mem_cons, loneSurrogate, surrogate_iff]
    by_cases hhigh : isHigh u
    · rw [if_pos hhigh]
      exact iff_of_false (fun heq => Bool.noConfusion heq) fun h => h.1 (Or.inl hhigh)
    · rw [if_neg hhigh]
      by_cases hlow : isLow u
      · rw [if_pos hlow]
        exact iff_of_false (fun heq => Bool.noConfusion heq) fun h => h.1 (Or.inr hlow)
      · rw [if_neg hlow, and_iff_right (not_or.mpr ⟨hhigh, hlow⟩)]
        exact iff_of_true rfl (List.forall_mem_nil _)
  | case4 => exact iff_of_true rfl (List.forall_mem_nil _)

/-- A string round-trips through storage where it is well-formed and has no NUL. -/
theorem storageStringRoundTrips_iff (s : Str) :
    storageStringRoundTrips s ↔ 0 ∉ s ∧ WellFormed s :=
  and_congr_right' (loneSurrogate_eq_false s)

/-- The characters of a name under a prefix are the prefix's and those of the rest. -/
theorem fitsCharacters_append (ha : NoHigh a) (s : Str) (width : ℕ) :
    fitsCharacters (a ++ s) (a.length + width) ↔ (codePoints s).length ≤ width := by
  have hcount : ∀ s : Str, fitsCharacters s (a.length + width) ↔
      (codePoints s).length ≤ a.length + width := by
    intro s
    unfold fitsCharacters
    rw [countCharacters_length, Nat.cast_le]
    exact or_iff_right_of_imp (codePoints_length s).1.trans
  rw [hcount, codePoints_append ha, List.length_append, List.length_map]
  omega

/-! ## What the check lets through -/

/-- Two checks in a row pass where both do. -/
theorem bind_eq_ok {ε : Type} {x y : Except ε Unit} :
    (do x; y) = .ok () ↔ x = .ok () ∧ y = .ok () := by
  cases x with
  | error e => exact iff_of_false nofun fun h => nomatch h.1
  | ok u => exact (and_iff_right rfl).symm

/-- An identifier that passes fits its limit. -/
theorem requireIdentifiersFit_ok {what : Str} (h : requireIdentifiersFit what raw = .ok ()) :
    fitsCharacters raw IDENTIFIER_CHARACTERS := by
  by_contra hlong
  rw [requireIdentifiersFit, if_neg hlong] at h
  cases h

/-- A durable string that passes is well-formed and has no NUL. -/
theorem requireDurableString_ok {what : String} (h : requireDurableString what raw = .ok ()) :
    0 ∉ raw ∧ WellFormed raw := by
  by_contra hbad
  rw [requireDurableString, if_neg (mt (storageStringRoundTrips_iff raw).mp hbad)] at h
  cases h

/-- The check lets an identifier's place through only where an identifier stands. -/
theorem requirePortString_identifier {name : PortStringName} {value : PortValue}
    (hrule : PORT_STRING_RULES name = .identifier) :
    requirePortString name value = .ok () ↔ ∃ raw, value = .string raw ∧ Identifier raw := by
  have hmap : PORT_STRING_RULES name ≠ .map := by
    rw [hrule]
    nofun
  cases value with
  | string raw =>
    have hcheck : requirePortString name (.string raw) = (do
        requireDurableString name.text raw
        requireIdentifiersFit (units name.text) raw) := by
      unfold requirePortString
      rw [if_neg hmap]
      simp only [hrule]
    rw [hcheck, bind_eq_ok]
    constructor
    · rintro ⟨hdurable, hfits⟩
      obtain ⟨hnul, hwell⟩ := requireDurableString_ok hdurable
      exact ⟨raw, rfl, hnul, hwell, requireIdentifiersFit_ok hfits⟩
    · rintro ⟨raw', heq, hid⟩
      obtain rfl := PortValue.string.inj heq
      exact ⟨if_pos ((storageStringRoundTrips_iff raw).mpr ⟨hid.noNul, hid.wellFormed⟩),
        if_pos hid.fits⟩
  | undefined | null | boolean _ | array | object _ | other =>
    unfold requirePortString
    rw [if_neg hmap]
    exact iff_of_false nofun fun ⟨_, heq, _⟩ => nomatch heq

/-- An argument of a call. One that was not passed is left out. -/
def arg (args : List PortValue) (index : ℕ) : PortValue := args.getD index .undefined

/-- Every argument a call was accepted with passed what the table says about it. -/
theorem requireArguments_ok {method : PortMethod} {spec : NamedStrings} (named : List NamedStrings) :
    ∀ (first i : ℕ) (args : List PortValue), requireArguments method first named args = .ok () →
      named[i]? = some spec → ∃ place, requireNamed spec (arg args i) place = .ok () := by
  induction named with
  | nil => exact fun _ _ _ _ hspec => nomatch hspec
  | cons next rest ih =>
    intro first i args h hspec
    rw [requireArguments, bind_eq_ok] at h
    cases i with
    | zero =>
      obtain rfl := Option.some.inj hspec
      cases args with
      | nil => exact ⟨_, h.1⟩
      | cons value args => exact ⟨_, h.1⟩
    | succ i =>
      have hrest := ih (first + 1) i args.tail h.2 hspec
      cases args with
      | nil => exact hrest
      | cons value args => exact hrest

/-- A call's strings pass where each of its arguments does. -/
theorem requirePortStrings_arguments {method : PortMethod} {args : List PortValue}
    (h : requirePortStrings method args = .ok ()) :
    requireArguments method 0 (PORT_STRINGS method) args = .ok () := by
  unfold requirePortStrings at h
  by_cases hcancel : method = .cancelTask
  · rw [if_pos hcancel] at h
    exact (bind_eq_ok.mp h).1
  · rw [if_neg hcancel] at h
    exact (bind_eq_ok.mp h).1

/-- Every member of an object passed what the table says about it. -/
theorem requireMembers_ok {property : String} {spec : NamedStrings} {member : String → PortValue}
    {place : String} {members : List (String × NamedStrings)}
    (h : requireMembers members member place = .ok ()) (hnamed : (property, spec) ∈ members) :
    requireNamed spec (member property) (place ++ "." ++ property) = .ok () := by
  induction members with
  | nil => exact absurd hnamed List.not_mem_nil
  | cons next rest ih =>
    obtain ⟨property', spec'⟩ := next
    rw [requireMembers, bind_eq_ok] at h
    obtain heq | hnamed := List.mem_cons.mp hnamed
    · obtain ⟨rfl, rfl⟩ := Prod.mk.inj heq
      exact h.1
    · exact ih h.2 hnamed

/-- A member that passed under an identifier's rule is one. -/
theorem identifier_of_members {place : String} {member : String → PortValue}
    {members : List (String × NamedStrings)} (property : String) (name : PortStringName)
    (h : requireMembers members member place = .ok ())
    (hnamed : (property, .string name) ∈ members) (hrule : PORT_STRING_RULES name = .identifier)
    (hraw : member property = .string raw) : Identifier raw := by
  have hheld := requireMembers_ok h hnamed
  rw [requireNamed, requirePortString_identifier hrule, hraw] at hheld
  obtain ⟨raw', heq, hid⟩ := hheld
  obtain rfl := PortValue.string.inj heq
  exact hid

section Accepted

variable {method : PortMethod} {args : List PortValue} {name : PortStringName} {i : ℕ}
  (h : requirePortStrings method args = .ok ())
include h

/-- A string an accepted call passes where an identifier belongs is one. -/
theorem identifier_of_accepted (hplace : (PORT_STRINGS method)[i]? = some (.string name))
    (hrule : PORT_STRING_RULES name = .identifier) (hraw : arg args i = .string raw) :
    Identifier raw := by
  obtain ⟨place, hheld⟩ :=
    requireArguments_ok _ 0 i args (requirePortStrings_arguments h) hplace
  rw [requireNamed, requirePortString_identifier hrule, hraw] at hheld
  obtain ⟨raw', heq, hid⟩ := hheld
  obtain rfl := PortValue.string.inj heq
  exact hid

/-- A string an accepted call passes as a member of an options object is an identifier where one
belongs. -/
theorem identifier_of_member {members : List (String × NamedStrings)} {property : String}
    {member : String → PortValue} (hplace : (PORT_STRINGS method)[i]? = some (.object members))
    (hnamed : (property, .string name) ∈ members) (hrule : PORT_STRING_RULES name = .identifier)
    (hobject : arg args i = .object member) (hraw : member property = .string raw) :
    Identifier raw := by
  obtain ⟨place, hheld⟩ :=
    requireArguments_ok _ 0 i args (requirePortStrings_arguments h) hplace
  rw [requireNamed, hobject] at hheld
  exact identifier_of_members property name hheld hnamed hrule hraw

end Accepted

/-! ## What an entry sends -/

/-- An id the engine mints: a durable string of at most 64 characters. -/
structure Minted (id : String) : Prop where
  noNul : 0 ∉ utf16 id
  fits : fitsCharacters (utf16 id) 64

/-- An entry's reading of a member of an options object, which is left out with it. -/
def PortValue.member (value : PortValue) (property : String) : PortValue :=
  match value.members with
  | some member => member property
  | none => undefined

/-- What a spawn reads of a key of the caller's. -/
inductive ReadsKey : PortValue → Option Str → Prop
  | none : ReadsKey .undefined none
  | some (key : Str) : ReadsKey (.string key) (some key)

/-- What a spawn reads of a parent: the key's two parts, and the claim it presents. -/
inductive ReadsParent : PortValue → Option ChildOf → Option ParentClaim → Prop
  | none : ReadsParent .undefined none none
  | some {member : String → PortValue} {queue taskId runId claimToken replayKey : Str}
    (hqueue : member "parentQueue" = .string queue)
    (htask : member "parentTaskId" = .string taskId) (hrun : member "runId" = .string runId)
    (htoken : member "claimToken" = .string claimToken)
    (hreplay : member "replayKey" = .string replayKey) :
    ReadsParent (.object member) (some ⟨taskId, replayKey⟩)
      (some ⟨text queue, text runId, text taskId, text claimToken⟩)

/-- The claim a worker's call presents, by its first three arguments. -/
inductive ReadsClaim (args : List PortValue) : WorkerClaim → Prop
  | claim {queue runId claimToken : Str} (hqueue : arg args 0 = .string queue)
    (hrun : arg args 1 = .string runId) (htoken : arg args 2 = .string claimToken) :
    ReadsClaim args ⟨text queue, text runId, text claimToken⟩

/-- The batches an entry may send for its arguments, its own checks of derived names passed. What it
does with numbers is left open here, ids it mints are as they are minted, and what it reads of the
store first, a run's task or a scan's rows, may be anything. -/
inductive Enters (args : List PortValue) : PortMethod → Call → Prop
  | spawn {queue taskName paramsJson : Str} {callerKey key : Option Str} {childOf : Option ChildOf}
    {parent : Option ParentClaim} {taskId runId : String} {headers : Option (List (String × String))}
    {retryStrategy : RetryStrategy} {maxAttempts delayMs : ℤ}
    {cancellation : Option CancellationPolicy} (hqueue : arg args 0 = .string queue)
    (hname : arg args 1 = .string taskName) (hparams : arg args 2 = .string paramsJson)
    (hcaller : ReadsKey ((arg args 3).member "idempotencyKey") callerKey)
    (hparent : ReadsParent ((arg args 3).member "childOf") childOf parent)
    (hkey : spawnIdempotencyKey ⟨callerKey, childOf⟩ = .ok key) (htask : Minted taskId)
    (hrun : Minted runId) :
    Enters args .spawn (.spawn ⟨text queue, taskId, runId, text taskName, text paramsJson, headers,
      retryStrategy, maxAttempts, cancellation, key.map text, delayMs, parent⟩)
  | claim {queue claimToken : Str} {leaseMs : ℤ} {limit : ℕ} (hqueue : arg args 0 = .string queue)
    (htoken : arg args 1 = .string claimToken) :
    Enters args .claim (.claim ⟨text queue, text claimToken, leaseMs, limit⟩)
  | activate {held : WorkerClaim} {claimGen : ℤ} (hclaim : ReadsClaim args held) :
    Enters args .activate (.activate ⟨held.queue, held.runId, held.claimToken, claimGen⟩)
  | deferLaunch {held : WorkerClaim} {claimGen delayMs : ℤ} (hclaim : ReadsClaim args held) :
    Enters args .deferLaunch
      (.deferLaunch ⟨held.queue, held.runId, held.claimToken, claimGen⟩ delayMs)
  | heartbeat {held : WorkerClaim} {extensionMs : ℤ} (hclaim : ReadsClaim args held) :
    Enters args .heartbeat (.heartbeat held extensionMs)
  | reschedule {held : WorkerClaim} {wake : WakeSpec} (hclaim : ReadsClaim args held) :
    Enters args .reschedule (.reschedule held wake)
  | complete {held : WorkerClaim} {resultJson : Str} {taskId : String}
    (hclaim : ReadsClaim args held) (hresult : arg args 3 = .string resultJson) :
    Enters args .complete (.complete held taskId (text resultJson))
  | suspendRun {held : WorkerClaim} {wake : WakeSpec} {member : String → PortValue}
    {key stateJson : Str} (hclaim : ReadsClaim args held) (hcheckpoint : arg args 4 = .object member)
    (hkey : member "key" = .string key) (hstate : member "stateJson" = .string stateJson)
    (hfits : requireSagaStepFits "checkpoint.key" key = .ok ()) :
    Enters args .suspendRun (.suspendRun held wake ⟨text key, text stateJson⟩)
  | fail {held : WorkerClaim} {failureJson : Str} {taskId passId : String}
    {retryDelayMs : Option ℤ} (hclaim : ReadsClaim args held)
    (hfailure : arg args 3 = .string failureJson) (hpass : Minted passId) :
    Enters args .fail (.failInto ⟨held, text failureJson, taskId, retryDelayMs, passId, none⟩)
  | failRollback {held : WorkerClaim} {failureJson stepKey errorJson : Str}
    {taskId passId stateJson : String} {passDelayMs : Option ℤ} (hclaim : ReadsClaim args held)
    (hfailure : arg args 3 = .string failureJson)
    (hfailed : requireFailedRollback (arg args 5) = .ok (stepKey, errorJson))
    (hpass : Minted passId) :
    Enters args .failRollback (.failInto ⟨held, text failureJson, taskId, none, passId,
      some ⟨⟨rollbackTriesName (text stepKey), stateJson⟩, passDelayMs⟩⟩)
  | sweepLostLaunch {queue : Str} {runId taskId passId : String} {claimGen : ℤ}
    (hqueue : arg args 0 = .string queue) (hpass : Minted passId) :
    Enters args .sweep (.sweepLostLaunch ⟨text queue, runId, taskId, claimGen, passId⟩)
  | sweepClaimTimeout {queue : Str} {runId taskId passId : String} {claimGen : ℤ}
    (hqueue : arg args 0 = .string queue) (hpass : Minted passId) :
    Enters args .sweep (.sweepClaimTimeout ⟨text queue, runId, taskId, claimGen, passId⟩)
  | sweepCancel {queue : Str} {taskId : String} (hqueue : arg args 0 = .string queue) :
    Enters args .sweep (.cancelTransition ⟨text queue, taskId, true, false⟩)
  | expireLeaseNow {held : WorkerClaim} (hclaim : ReadsClaim args held) :
    Enters args .expireLeaseNow (.expireLeaseNow held)
  | setCheckpoint {queue taskId runId claimToken name stateJson : Str} {extendMs : ℤ}
    (hqueue : arg args 0 = .string queue) (htask : arg args 1 = .string taskId)
    (hrun : arg args 2 = .string runId) (htoken : arg args 3 = .string claimToken)
    (hname : arg args 4 = .string name) (hstate : arg args 5 = .string stateJson)
    (hfits : requireSagaStepFits "checkpointName" name = .ok ()) :
    Enters args .setCheckpoint (.setCheckpoint ⟨text queue, text runId, text claimToken⟩
      (text taskId) ⟨text name, text stateJson⟩ extendMs)
  | emitEvent {queue eventName payloadJson : Str} (hqueue : arg args 0 = .string queue)
    (hname : arg args 1 = .string eventName) (hpayload : arg args 2 = .string payloadJson) :
    Enters args .emitEvent (.emitEvent ⟨text queue, .port (text eventName), text payloadJson⟩)
  | awaitEvent {queue taskId runId claimToken stepName eventName : Str} {timeoutMs : Option ℤ}
    (hqueue : arg args 0 = .string queue) (htask : arg args 1 = .string taskId)
    (hrun : arg args 2 = .string runId) (htoken : arg args 3 = .string claimToken)
    (hstep : arg args 4 = .string stepName) (hname : arg args 5 = .string eventName) :
    Enters args .awaitEvent (.awaitEvent ⟨text queue, text runId, text taskId, text claimToken,
      text stepName, .port (text eventName), timeoutMs⟩)
  | awaitTaskDone {queue taskId runId claimToken stepName childTaskId name : Str}
    {timeoutMs : Option ℤ} (hqueue : arg args 0 = .string queue)
    (htask : arg args 1 = .string taskId) (hrun : arg args 2 = .string runId)
    (htoken : arg args 3 = .string claimToken) (hstep : arg args 4 = .string stepName)
    (hchild : arg args 5 = .string childTaskId) (hname : awaitedTaskDone childTaskId = .ok name) :
    Enters args .awaitTaskDone (.awaitEvent ⟨text queue, text runId, text taskId, text claimToken,
      text stepName, .taskDone (text childTaskId), timeoutMs⟩)
  | recordTaskDone {queue taskId runId claimToken childTaskId name : Str} {childStamp : Option Stamp}
    {payloadJson : String} (hqueue : arg args 0 = .string queue)
    (htask : arg args 1 = .string taskId) (hrun : arg args 2 = .string runId)
    (htoken : arg args 3 = .string claimToken) (hchild : arg args 5 = .string childTaskId)
    (hname : awaitedTaskDone childTaskId = .ok name) :
    Enters args .awaitTaskDone (.recordTaskDone ⟨text queue, text runId, text taskId,
      text claimToken, text childTaskId, childStamp, payloadJson⟩)
  | cancelTask {queue taskId : Str} {unlessSagaBegan : Bool} (hqueue : arg args 0 = .string queue)
    (htask : arg args 1 = .string taskId) :
    Enters args .cancelTask (.cancelTransition ⟨text queue, text taskId, false, unlessSagaBegan⟩)
  | retryTask {queue taskId : Str} {runId : String} (hqueue : arg args 0 = .string queue)
    (htask : arg args 1 = .string taskId) (hrun : Minted runId) :
    Enters args .retryTask (.retryTask ⟨text queue, text taskId, runId⟩)

/-- A batch a port call sends: the call's arguments passed the check as it read them, and its entry
makes the batch of what it reads of them afterwards. -/
structure PortSends (method : PortMethod) (checked entered : List PortValue) (call : Call) : Prop where
  accepted : requirePortStrings method checked = .ok ()
  enters : Enters entered method call

/-! ## Identifier columns -/

/-- The stored name is an identifier. -/
def IsIdentifier (name : String) : Prop := Identifier (utf16 name)

/-- An identifier, as stored. -/
theorem Identifier.text (h : Identifier raw) : IsIdentifier (text raw) := by
  unfold IsIdentifier
  rw [h.wellFormed.utf16_text]
  exact h

/-- Text of plain units is spelled by them. -/
theorem utf16_units (p s : String) (hp : utf16 p = units p) : utf16 (p ++ s) = units p ++ utf16 s := by
  rw [utf16_append, hp]

/-- A minted id is an identifier. -/
theorem Minted.isIdentifier {id : String} (h : Minted id) : IsIdentifier id := by
  refine ⟨h.noNul, wellFormed_utf16 id, ?_⟩
  have hfits := (fitsCharacters_append (List.forall_mem_nil _) (utf16 id) 64).mp
    ((Nat.zero_add 64).symm ▸ h.fits)
  exact (fitsCharacters_append (a := []) (List.forall_mem_nil _) (utf16 id) 255).mpr (by omega)

/-- The completion event of a task with a minted id is named within the width. -/
theorem Minted.taskDone {id : String} (h : Minted id) : IsIdentifier (taskDoneEventName id) := by
  have hname : utf16 (taskDoneEventName id) = taskDoneUnits (utf16 id) :=
    utf16_units _ _ (by decide)
  refine ⟨?_, wellFormed_utf16 _, ?_⟩
  · rw [hname, taskDoneUnits, List.mem_append, not_or]
    exact ⟨by decide, h.noNul⟩
  · rw [hname]
    have hfits := (fitsCharacters_append (a := []) (List.forall_mem_nil _) (utf16 id) 64).mp h.fits
    have hwidth : IDENTIFIER_CHARACTERS = (units "$task-done:").length + 244 := by decide
    rw [hwidth]
    exact (fitsCharacters_append (by decide) (utf16 id) 244).mpr (by omega)

/-- The identifier columns of a row of `tasks`. -/
structure Task.NamesFit (t : Task) : Prop where
  taskId : Minted t.taskId
  queue : IsIdentifier t.queue
  idempotencyKey : ∀ key ∈ t.idempotencyKey, IsIdentifier key

/-- The identifier columns of a row of `runs`. -/
structure Run.NamesFit (r : Run) : Prop where
  runId : Minted r.runId
  taskId : Minted r.taskId
  queue : IsIdentifier r.queue
  claimedBy : ∀ token ∈ r.claimedBy, IsIdentifier token
  wakeEvent : ∀ name ∈ r.wakeEvent, IsIdentifier name
  wakeStep : ∀ name ∈ r.wakeStep, IsIdentifier name

/-- The identifier columns of a row of `waits`. -/
structure Wait.NamesFit (w : Wait) : Prop where
  runId : IsIdentifier w.runId
  stepName : IsIdentifier w.stepName
  queue : IsIdentifier w.queue
  taskId : IsIdentifier w.taskId
  eventName : IsIdentifier w.eventName

/-- The identifier columns of a row of `events`. -/
structure Event.NamesFit (e : Event) : Prop where
  queue : IsIdentifier e.queue
  eventName : IsIdentifier e.eventName

/-- The identifier columns of a row of `checkpoints`. -/
structure Checkpoint.NamesFit (c : Checkpoint) : Prop where
  taskId : IsIdentifier c.taskId
  checkpointName : IsIdentifier c.checkpointName
  queue : IsIdentifier c.queue
  ownerRunId : IsIdentifier c.ownerRunId

/-- Every identifier column holds an identifier. -/
structure NamesFit (db : Db) : Prop where
  tasks : ∀ t ∈ db.tasks, t.NamesFit
  runs : ∀ r ∈ db.runs, r.NamesFit
  waits : ∀ w ∈ db.waits, w.NamesFit
  events : ∀ e ∈ db.events, e.NamesFit
  checkpoints : ∀ c ∈ db.checkpoints, c.NamesFit

/-- What a batch stores of its own in an identifier column. -/
def Call.NamesFit : Call → Prop
  | .spawn call => Minted call.taskId ∧ Minted call.runId ∧ IsIdentifier call.queue ∧
      ∀ key ∈ call.idempotencyKey, IsIdentifier key
  | .claim call => IsIdentifier call.claimToken
  | .suspendRun _ _ checkpoint | .setCheckpoint _ _ checkpoint _ => IsIdentifier checkpoint.key
  | .awaitEvent call => IsIdentifier call.queue ∧ IsIdentifier call.runId ∧
      IsIdentifier call.taskId ∧ IsIdentifier call.stepName ∧ IsIdentifier call.eventName.value
  | .emitEvent call => IsIdentifier call.queue ∧ IsIdentifier call.eventName.value
  | .failInto failure => Minted failure.passId ∧
      ∀ rollback ∈ failure.rollback, IsIdentifier rollback.tried.key
  | .sweepLostLaunch swept | .sweepClaimTimeout swept => Minted swept.passId
  | .retryTask call => Minted call.runId
  | .activate _ | .heartbeat _ _ | .deferLaunch _ _ | .reschedule _ _ | .recordTaskDone _
  | .complete _ _ _ | .cancelTransition _ | .expireLeaseNow _ => True

/-! ## What a call stores -/

/-- A child's key is durable where its parts are. -/
theorem childSpawnKey_durable {parent replay : Str} (hp : Identifier parent)
    (hr : Identifier replay) : 0 ∉ childSpawnKey parent replay ∧
      WellFormed (childSpawnKey parent replay) := by
  have hdigit : ∀ u ∈ decimal parent.length, 48 ≤ u.toNat ∧ u.toNat ≤ 57 := by
    intro u hu
    have hdigit := isDigit_of_mem_decimal hu
    simp only [isDigit, Bool.and_eq_true, decide_eq_true_eq, UInt16.le_iff_toNat_le] at hdigit
    exact hdigit
  have hprefix : CHILD_SPAWN_KEY_PREFIX = utf16 "$spawn:" := by decide
  have hcolon : WellFormed [58] := wellFormed_utf16 ":"
  have hdecimal : WellFormed (decimal parent.length) := by
    have hpoints : codePoints (decimal parent.length) = (decimal parent.length).map UInt16.toNat := by
      have happend := codePoints_append (a := decimal parent.length) (fun u hu hhigh => by
        have hle := (hdigit u hu).2
        have hge := hhigh.1
        omega) []
      rw [List.append_nil] at happend
      rw [happend]
      exact List.append_nil _
    intro c hc
    rw [hpoints] at hc
    obtain ⟨u, hu, rfl⟩ := List.mem_map.mp hc
    have hle := (hdigit u hu).2
    omega
  refine ⟨?_, ?_⟩
  · simp only [childSpawnKey, List.mem_append, List.mem_cons, not_or]
    refine ⟨by decide, fun hzero => ?_, by decide, hp.noNul, by decide, hr.noNul⟩
    exact absurd (hdigit 0 hzero).1 (by decide)
  · have hparts : childSpawnKey parent replay = CHILD_SPAWN_KEY_PREFIX ++
        (decimal parent.length ++ ([58] ++ (parent ++ ([58] ++ replay)))) := rfl
    have hengine : WellFormed (utf16 "$spawn:") := wellFormed_utf16 _
    rw [hparts, hprefix]
    exact hengine.append (hdecimal.append (hcolon.append
      (hp.wellFormed.append (hcolon.append hr.wellFormed))))

/-- The key a spawn stores is the caller's or a child's within the width. -/
theorem spawnIdempotencyKey_identifier {callerKey key : Option Str} {childOf : Option ChildOf}
    (hcaller : ∀ k ∈ callerKey, Identifier k)
    (hchild : ∀ p ∈ childOf, Identifier p.parentTaskId ∧ Identifier p.replayKey)
    (hkey : spawnIdempotencyKey ⟨callerKey, childOf⟩ = .ok key) : ∀ k ∈ key, Identifier k := by
  cases childOf with
  | none =>
    cases callerKey with
    | none =>
      obtain rfl := Except.ok.inj hkey
      exact nofun
    | some callerKey =>
      by_cases hreserved : startsWith callerKey ENGINE_PREFIX
      · simp only [spawnIdempotencyKey, refuseReservedIdempotencyKey, if_pos hreserved] at hkey
        cases hkey
      · simp only [spawnIdempotencyKey, refuseReservedIdempotencyKey, if_neg hreserved] at hkey
        obtain rfl := Except.ok.inj hkey
        exact hcaller
  | some p =>
    cases callerKey with
    | some callerKey => cases hkey
    | none =>
      obtain ⟨hparent, hreplay⟩ := hchild p rfl
      by_cases hfits : fitsCharacters (childSpawnKey p.parentTaskId p.replayKey)
          IDENTIFIER_CHARACTERS
      · simp only [spawnIdempotencyKey, requireIdentifiersFit, if_pos hfits] at hkey
        obtain rfl := Except.ok.inj hkey
        rintro k ⟨⟩
        obtain ⟨hnul, hwell⟩ := childSpawnKey_durable hparent hreplay
        exact ⟨hnul, hwell, hfits⟩
      · simp only [spawnIdempotencyKey, requireIdentifiersFit, if_neg hfits] at hkey
        cases hkey

/-- An argument that may be left out passes its own rules where it was not. -/
theorem requireNamed_passed {spec : NamedStrings} {value : PortValue} {place : String}
    (h : requireNamed (.leftOut spec) value place = .ok ()) (hpassed : ¬ value.LeftOut) :
    requireNamed spec value place = .ok () := by
  rw [requireNamed, if_neg hpassed] at h
  exact h

/-- A member of an accepted spawn's options that was passed is held to what the table says of it. -/
theorem spawn_member {args : List PortValue} (property : String) {spec : NamedStrings}
    (h : requirePortStrings .spawn args = .ok ()) (hnamed : (property, .leftOut spec) ∈ SPAWN_MEMBERS)
    (hpassed : ¬ ((arg args 3).member property).LeftOut) :
    ∃ place, requireNamed spec ((arg args 3).member property) place = .ok () := by
  obtain ⟨place, hheld⟩ := requireArguments_ok (PORT_STRINGS .spawn) 0 3 args
    (requirePortStrings_arguments h) rfl
  by_cases hleft : (arg args 3).LeftOut
  · refine absurd ?_ hpassed
    cases hvalue : arg args 3 with
    | undefined => exact trivial
    | null | boolean _ | string _ | array | object _ | other =>
      rw [hvalue] at hleft
      exact hleft.elim
  · have hobject := requireNamed_passed hheld hleft
    rw [requireNamed] at hobject
    unfold PortValue.member at hpassed ⊢
    cases hmembers : (arg args 3).members with
    | none =>
      rw [hmembers] at hobject
      cases hobject
    | some member =>
      rw [hmembers] at hobject hpassed
      exact ⟨_, requireNamed_passed (requireMembers_ok hobject hnamed) hpassed⟩

section Spawn

variable {args : List PortValue} {callerKey key : Option Str} {childOf : Option ChildOf}
  {parent : Option ParentClaim} (h : requirePortStrings .spawn args = .ok ())
include h

/-- A caller's key that passed is an identifier. -/
theorem callerKey_identifier
    (hcaller : ReadsKey ((arg args 3).member "idempotencyKey") callerKey) :
    ∀ k ∈ callerKey, Identifier k := by
  generalize hvalue : (arg args 3).member "idempotencyKey" = value at hcaller
  cases hcaller with
  | none => exact nofun
  | some key =>
    rintro k ⟨⟩
    obtain ⟨place, hheld⟩ := spawn_member "idempotencyKey" h List.mem_cons_self (hvalue ▸ id)
    rw [requireNamed, requirePortString_identifier rfl, hvalue] at hheld
    obtain ⟨raw, heq, hid⟩ := hheld
    obtain rfl := PortValue.string.inj heq
    exact hid

/-- A parent that passed is named by identifiers. -/
theorem childOf_identifier (hparent : ReadsParent ((arg args 3).member "childOf") childOf parent) :
    ∀ p ∈ childOf, Identifier p.parentTaskId ∧ Identifier p.replayKey := by
  generalize hvalue : (arg args 3).member "childOf" = value at hparent
  cases hparent with
  | none => exact nofun
  | some hqueue htask hrun htoken hreplay =>
    rintro p ⟨⟩
    obtain ⟨place, hheld⟩ := spawn_member "childOf" h
      (List.mem_cons_of_mem _ List.mem_cons_self) (hvalue ▸ id)
    rw [requireNamed, hvalue] at hheld
    exact ⟨identifier_of_members "parentTaskId" .parentTaskId hheld (by simp [CHILD_MEMBERS]) rfl
      htask, identifier_of_members "replayKey" .replayKey hheld (by simp [CHILD_MEMBERS]) rfl hreplay⟩

end Spawn

/-- A name under a reserved prefix of plain units is durable where the rest is. -/
theorem under_identifier {p : String} (hp : utf16 p = units p) (hplain : 0 ∉ units p)
    (h : Identifier raw) (hfits : fitsCharacters (units p ++ raw) IDENTIFIER_CHARACTERS) :
    IsIdentifier (p ++ text raw) := by
  have hname : utf16 (p ++ text raw) = units p ++ raw := by
    rw [utf16_units _ _ hp, h.wellFormed.utf16_text]
  refine ⟨?_, wellFormed_utf16 _, ?_⟩
  · rw [hname, List.mem_append, not_or]
    exact ⟨hplain, h.noNul⟩
  · rw [hname]
    exact hfits

/-- The event of an awaited task's end has an identifier for its name. -/
theorem awaitedTaskDone_identifier {name : Str} (h : Identifier raw)
    (hname : awaitedTaskDone raw = .ok name) : IsIdentifier (taskDoneEventName (text raw)) := by
  refine under_identifier (by decide) (by decide) h ?_
  by_contra hlong
  have hlong : ¬ fitsCharacters (taskDoneUnits raw) IDENTIFIER_CHARACTERS := hlong
  simp only [awaitedTaskDone, requireIdentifiersFit, if_pos h.fits, if_neg hlong] at hname
  cases hname

/-- The step of a failed rollback leaves room for its attempt record's name. -/
theorem requireFailedRollback_ok {value : PortValue} {stepKey errorJson : Str}
    (h : requireFailedRollback value = .ok (stepKey, errorJson)) :
    ∃ member, value = .object member ∧ member "stepKey" = .string stepKey ∧
      fitsCharacters (rollbackTriesUnits stepKey) IDENTIFIER_CHARACTERS := by
  unfold requireFailedRollback at h
  split at h
  · rename_i member
    split at h
    · rename_i stepKey' errorJson' hstep _
      by_cases hfits : fitsCharacters (rollbackTriesUnits stepKey') IDENTIFIER_CHARACTERS
      · simp only [requireIdentifiersFit, if_pos hfits] at h
        obtain ⟨rfl, rfl⟩ := Prod.mk.inj (Except.ok.inj h)
        exact ⟨member, rfl, hstep, hfits⟩
      · simp only [requireIdentifiersFit, if_neg hfits] at h
        cases h
    · cases h
  · cases h

/-- The record of a failed rollback that passed has an identifier for its name. -/
theorem failedRollback_identifier {args : List PortValue} {stepKey errorJson : Str}
    (h : requirePortStrings .failRollback args = .ok ())
    (hfailed : requireFailedRollback (arg args 5) = .ok (stepKey, errorJson)) :
    IsIdentifier (rollbackTriesName (text stepKey)) := by
  obtain ⟨member, hobject, hstep, hfits⟩ := requireFailedRollback_ok hfailed
  have hid := identifier_of_member h (i := 5) rfl List.mem_cons_self rfl hobject hstep
  exact under_identifier (by decide) (by decide) hid hfits

/-- What an accepted call sends stores identifiers only, where its arguments answer its entry as they
answered the check. -/
theorem PortSends.namesFit {method : PortMethod} {args : List PortValue} {call : Call}
    (h : PortSends method args args call) : call.NamesFit := by
  obtain ⟨haccepted, henters⟩ := h
  have hid : ∀ {i : ℕ} {name : PortStringName} {raw : Str},
      (PORT_STRINGS method)[i]? = some (.string name) → PORT_STRING_RULES name = .identifier →
      arg args i = .string raw → Identifier raw :=
    fun hplace hrule hraw => identifier_of_accepted haccepted hplace hrule hraw
  cases henters with
  | spawn hqueue _ _ hcaller hparent hkey htask hrun =>
    refine ⟨htask, hrun, (hid (i := 0) rfl rfl hqueue).text, fun key hstored => ?_⟩
    obtain ⟨raw, hraw, rfl⟩ := Option.mem_map.mp hstored
    exact (spawnIdempotencyKey_identifier (callerKey_identifier haccepted hcaller)
      (childOf_identifier haccepted hparent) hkey raw hraw).text
  | claim _ htoken => exact (hid (i := 1) rfl rfl htoken).text
  | suspendRun _ hcheckpoint hkey _ _ =>
    exact (identifier_of_member haccepted (i := 4) rfl List.mem_cons_self rfl hcheckpoint hkey).text
  | setCheckpoint _ _ _ _ hname _ _ => exact (hid (i := 4) rfl rfl hname).text
  | fail _ _ hpass => exact ⟨hpass, nofun⟩
  | failRollback _ _ hfailed hpass =>
    refine ⟨hpass, ?_⟩
    rintro rollback ⟨⟩
    exact failedRollback_identifier haccepted hfailed
  | sweepLostLaunch _ hpass => exact hpass
  | sweepClaimTimeout _ hpass => exact hpass
  | emitEvent hqueue hname _ =>
    exact ⟨(hid (i := 0) rfl rfl hqueue).text, (hid (i := 1) rfl rfl hname).text⟩
  | awaitEvent hqueue htask hrun _ hstep hname =>
    exact ⟨(hid (i := 0) rfl rfl hqueue).text, (hid (i := 2) rfl rfl hrun).text,
      (hid (i := 1) rfl rfl htask).text, (hid (i := 4) rfl rfl hstep).text,
      (hid (i := 5) rfl rfl hname).text⟩
  | awaitTaskDone hqueue htask hrun _ hstep hchild hname =>
    exact ⟨(hid (i := 0) rfl rfl hqueue).text, (hid (i := 2) rfl rfl hrun).text,
      (hid (i := 1) rfl rfl htask).text, (hid (i := 4) rfl rfl hstep).text,
      awaitedTaskDone_identifier (hid (i := 5) rfl rfl hchild) hname⟩
  | retryTask _ _ hrun => exact hrun
  | activate | deferLaunch | heartbeat | reschedule | complete | sweepCancel | expireLeaseNow
  | recordTaskDone | cancelTask => exact trivial

/-! ## Runs of the store -/

section Effects

variable {seed : String} {now : ℤ} {db db' : Db} {call : Call}

/-- A run's registered step is that of a stored wait. -/
theorem registeredWaitStep_mem {r : Run} {name : String} (h : registeredWaitStep db r = some name) :
    ∃ w ∈ db.waits, w.stepName = name := by
  unfold registeredWaitStep at h
  split at h
  · rename_i w hwaits
    obtain rfl := Option.some.inj h
    have hw : w ∈ registeredWaits db r := hwaits ▸ List.mem_cons_self
    exact ⟨w, (List.mem_filter.mp hw).1, rfl⟩
  · cases h

/-- What a batch makes of a task keeps its names. -/
theorem Task.Move.namesFit {t u : Task} (hm : Task.Move seed now db call t u) (h : t.NamesFit) :
    u.NamesFit := by
  cases hm with
  | booked | started | followed | completed | rollingBack | retrying | failed | infraRetried
  | cancelled | revived => exact ⟨h.taskId, h.queue, h.idempotencyKey⟩

/-- A task that a batch moved, or left, keeps its names. -/
theorem Task.Moved.namesFit {t t' : Task} (hm : Task.Moved seed now db call t t')
    (h : t.NamesFit) : t'.NamesFit := by
  induction hm with
  | refl => exact h
  | tail _ hturn ih =>
    obtain ⟨u, name, at', hmove, rfl⟩ := hturn
    have hu := hmove.namesFit ih
    exact ⟨hu.taskId, hu.queue, hu.idempotencyKey⟩

/-- A run keeps its names, but for the token of a claim and the names of an await. -/
theorem Run.Move.namesFit {r r' : Run} (hm : Run.Move seed now db db' call r r')
    (hcall : call.NamesFit) (hwaits : ∀ w ∈ db.waits, w.NamesFit) (h : r.NamesFit) :
    r'.NamesFit := by
  have hunclaimed : ∀ token ∈ (none : Option String), IsIdentifier token := nofun
  cases hm with
  | claimed _ =>
    refine ⟨h.runId, h.taskId, h.queue, ?_, h.wakeEvent, fun name hname => ?_⟩
    · rintro token ⟨⟩
      exact hcall
    · obtain hname | ⟨_, hname⟩ := Option.or_eq_some_iff.mp hname
      · exact h.wakeStep name hname
      · obtain ⟨w, hw, rfl⟩ := registeredWaitStep_mem hname
        exact (hwaits w hw).stepName
  | activated | extended | leased | expired | woken =>
    exact ⟨h.runId, h.taskId, h.queue, h.claimedBy, h.wakeEvent, h.wakeStep⟩
  | awaited =>
    refine ⟨h.runId, h.taskId, h.queue, hunclaimed, ?_, ?_⟩
    · rintro name ⟨⟩
      exact hcall.2.2.2.2
    · rintro name ⟨⟩
      exact hcall.2.2.2.1
  | rescheduled | suspended | completed =>
    exact ⟨h.runId, h.taskId, h.queue, hunclaimed, nofun, nofun⟩
  | deferred | reopened | failed | capped | timedOut | cancelled =>
    exact ⟨h.runId, h.taskId, h.queue, hunclaimed, h.wakeEvent, h.wakeStep⟩

/-- A run that a batch places has names that fit where the call's and its task's do. -/
theorem Run.Born.namesFit {p : Run} (hborn : Run.Born seed now db call p) (hcall : call.NamesFit)
    (hruns : ∀ r ∈ db.runs, r.NamesFit) (htasks : ∀ t ∈ db.tasks, t.NamesFit) : p.NamesFit := by
  cases hborn with
  | first => exact ⟨hcall.2.1, hcall.1, hcall.2.2.1, nofun, nofun, nofun⟩
  | @followed call r name id state delayMs hr _ hplaces _ _ hnext =>
    have h := hruns r hr
    refine ⟨?_, h.taskId, h.queue, nofun, h.wakeEvent, h.wakeStep⟩
    cases call with
    | failInto =>
      obtain rfl := Option.some.inj hnext
      exact hcall.1
    | sweepLostLaunch | sweepClaimTimeout =>
      obtain rfl := Option.some.inj hnext
      exact hcall
    | retryTask => exact hplaces.elim
    | spawn | claim | activate | heartbeat | deferLaunch | reschedule | suspendRun | awaitEvent
    | recordTaskDone | emitEvent | setCheckpoint | complete | cancelTransition | expireLeaseNow =>
      cases hnext
  | @revived call t p ht _ hp =>
    have h := hruns p hp
    exact ⟨hcall, (htasks t ht).taskId, (htasks t ht).queue, nofun, h.wakeEvent, h.wakeStep⟩

end Effects

variable {s : Sys} {b : Batch} {now : ℤ}

/-- A checkpoint a batch writes is under an identifier, for a run whose names fit. -/
theorem Delivers.write_names {f : Run} {write : CheckpointWrite} (hd : Delivers s b now)
    (hcall : b.call.NamesFit) (h : NamesFit s.db)
    (hwrite : Checkpoint.Write b.seed now s.db (b.after now s.db) b.call f write) :
    f.NamesFit ∧ IsIdentifier write.key := by
  obtain ⟨seed, call⟩ := b
  cases hwrite with
  | suspended hf _ => exact ⟨h.runs f hf, hcall⟩
  | leased hf _ => exact ⟨h.runs f hf, hcall⟩
  | tried hf _ hfailed => exact ⟨h.runs f hf, hcall.2 _ hfailed⟩
  | entered _ hborn _ _ =>
    have hphase : IsIdentifier SAGA_PHASE_CHECKPOINT :=
      ⟨by decide, wellFormed_utf16 _, by decide⟩
    exact ⟨hborn.namesFit hcall h.runs h.tasks, hphase⟩

/-- A delivery keeps every identifier column an identifier's. -/
theorem Delivers.namesFit (hd : Delivers s b now) (hcall : b.call.NamesFit) (h : NamesFit s.db) :
    NamesFit (b.after now s.db) := by
  have htasks : ∀ t ∈ (b.after now s.db).tasks, t.NamesFit := by
    intro t' ht'
    obtain ⟨t, ht, hmoved⟩ | hborn := hd.effect.tasks.before t' ht'
    · exact Task.Moved.namesFit hmoved (h.tasks t ht)
    · obtain ⟨seed, call⟩ := b
      cases hborn with
      | spawned => exact ⟨hcall.1, hcall.2.2.1, hcall.2.2.2⟩
  refine ⟨htasks, fun r' hr' => ?_, fun w hw => ?_, fun e' he' => ?_, fun c' hc' => ?_⟩
  · obtain ⟨r, hr, rfl | hm⟩ | hborn := hd.effect.runs.before r' hr'
    · exact h.runs r' hr
    · exact hm.namesFit hcall h.waits (h.runs r hr)
    · exact hborn.namesFit hcall h.runs h.tasks
  · obtain hw | hborn := hd.effect.waits w hw
    · exact h.waits w hw
    · obtain ⟨seed, call⟩ := b
      cases hborn with
      | registered =>
        obtain ⟨hqueue, hrun, htask, hstep, hname⟩ := hcall
        exact ⟨hrun, hstep, hqueue, htask, hname⟩
  · obtain ⟨e, he, hkept⟩ | hborn := hd.effect.events.before e' he'
    · refine ⟨?_, ?_⟩
      · rw [hkept.queue]
        exact (h.events e he).queue
      · rw [hkept.eventName]
        exact (h.events e he).eventName
    · obtain ⟨seed, call⟩ := b
      cases hborn with
      | emitted => exact ⟨hcall.1, hcall.2⟩
      | ended ht _ hqueue hname _ =>
        refine ⟨?_, ?_⟩
        · rw [hqueue]
          exact (htasks _ ht).queue
        · rw [hname]
          exact (htasks _ ht).taskId.taskDone
  -- A checkpoint's task and owner are those of the run that wrote it, and its key is the call's.
  · have hwritten : ∀ f write, Checkpoint.Write b.seed now s.db (b.after now s.db) b.call f write →
        WrittenBy f write c' → IsIdentifier c'.queue → c'.NamesFit := by
      intro f write hwrite hby hqueue
      obtain ⟨hf, hkey⟩ := hd.write_names hcall h hwrite
      exact ⟨hby.taskId ▸ hf.taskId.isIdentifier, hby.checkpointName ▸ hkey, hqueue,
        hby.ownerRunId ▸ hf.runId.isIdentifier⟩
    obtain ⟨c, hc, rfl | ⟨f, write, hwrite, hby, _, _, _, hqueue⟩⟩ | ⟨f, write, hwrite, hby, hqueue⟩
      := hd.effect.checkpoints.before c' hc'
    · exact h.checkpoints c' hc
    · exact hwritten f write hwrite hby (hqueue ▸ (h.checkpoints c hc).queue)
    · exact hwritten f write hwrite hby (hqueue ▸ (hd.write_names hcall h hwrite).1.queue)

/-- Where every delivered batch stores identifiers only, so does the store. -/
theorem Reachable.namesFit (h : Reachable Repeats s)
    (hsent : ∀ e ∈ s.history, e.batch.call.NamesFit) : NamesFit s.db := by
  refine h.induct (P := fun s => (∀ e ∈ s.history, e.batch.call.NamesFit) → NamesFit s.db)
    (fun _ _ hrepeats => hrepeats) (fun _ => ?_) (fun s b now hd ih hsent => ?_) hsent
  · exact ⟨fun t ht => absurd ht (Table.not_mem_empty t), fun r hr => absurd hr (Table.not_mem_empty r),
      fun w hw => absurd hw (Table.not_mem_empty w), fun e he => absurd he (Table.not_mem_empty e),
      fun c hc => absurd hc (Table.not_mem_empty c)⟩
  · exact hd.namesFit (hsent _ List.mem_cons_self)
      (ih fun e he => hsent e (List.mem_cons_of_mem _ he))

/-! ## The names of a saga step -/

/-- A call stores a checkpoint under a name. -/
inductive NamesCheckpoint (args : List PortValue) : PortMethod → Str → Prop
  | setCheckpoint {name : Str} (h : arg args 4 = .string name) :
    NamesCheckpoint args .setCheckpoint name
  | suspendRun {name : Str} {member : String → PortValue} (h : arg args 4 = .object member)
    (hkey : member "key" = .string name) : NamesCheckpoint args .suspendRun name

/-- A start marker an accepted call stores leaves room for every saga name of its step. -/
theorem PortSends.started_fits {method : PortMethod} {args : List PortValue} {call : Call} {k : Str}
    (h : PortSends method args args call) (hnames : NamesCheckpoint args method (SAGA_STARTED ++ k)) :
    0 ∉ k ∧ WellFormed k ∧ (codePoints k).length ≤ SAGA_STEP_KEY_CHARACTERS := by
  have hroom : ∀ what, requireSagaStepFits what (SAGA_STARTED ++ k) = .ok () →
      (codePoints k).length ≤ SAGA_STEP_KEY_CHARACTERS := by
    intro what hfits
    have hstarts : startsWith (SAGA_STARTED ++ k) SAGA_STARTED :=
      startsWith_iff.mpr (List.prefix_append _ _)
    refine (fitsCharacters_append (a := SAGA_STARTED) (by decide) k _).mp ?_
    by_contra hlong
    rw [requireSagaStepFits, if_neg (not_not.mpr hstarts), if_neg hlong] at hfits
    cases hfits
  have hkey : Identifier (SAGA_STARTED ++ k) → 0 ∉ k ∧ WellFormed k := fun hid =>
    ⟨fun hmem => hid.noNul (List.mem_append_right _ hmem), hid.wellFormed.of_append (by decide)⟩
  obtain ⟨haccepted, henters⟩ := h
  cases hnames with
  | setCheckpoint hname =>
    cases henters with
    | setCheckpoint _ _ _ _ hname' _ hfits =>
      obtain rfl := PortValue.string.inj (hname.symm.trans hname')
      have hid := identifier_of_accepted haccepted (i := 4) rfl rfl hname
      exact ⟨(hkey hid).1, (hkey hid).2, hroom _ hfits⟩
  | suspendRun hobject hname =>
    cases henters with
    | suspendRun _ hobject' hname' _ hfits =>
      obtain rfl := PortValue.object.inj (hobject.symm.trans hobject')
      obtain rfl := PortValue.string.inj (hname.symm.trans hname')
      have hid := identifier_of_member haccepted (i := 4) rfl List.mem_cons_self rfl hobject hname
      exact ⟨(hkey hid).1, (hkey hid).2, hroom _ hfits⟩

/-- No check of the port refuses the names a rolled-back step is recorded under. -/
structure Recordable (k : Str) : Prop where
  rollbackName : requirePortString .checkpointName (.string (SAGA_ROLLBACK ++ k)) = .ok ()
  rollbackKey : requirePortString .checkpointKey (.string (SAGA_ROLLBACK ++ k)) = .ok ()
  rollbackStep : ∀ what, requireSagaStepFits what (SAGA_ROLLBACK ++ k) = .ok ()
  triesStep : requirePortString .rollbackStepKey (.string k) = .ok ()
  triesName : ∀ (member : String → PortValue) (errorJson : Str), member "stepKey" = .string k →
    member "errorJson" = .string errorJson →
    requireFailedRollback (.object member) = .ok (k, errorJson)

/-- A key that passed a step's check can be recorded. -/
theorem recordable {k : Str} (hnul : 0 ∉ k) (hwell : WellFormed k)
    (hfits : (codePoints k).length ≤ SAGA_STEP_KEY_CHARACTERS) : Recordable k := by
  have hroom : ∀ (p : Str) (width : ℕ), NoHigh p → p.length + width = 255 →
      239 ≤ width → fitsCharacters (p ++ k) IDENTIFIER_CHARACTERS := by
    intro p width hp hwidth hle
    have hiff := fitsCharacters_append hp k width
    rw [hwidth] at hiff
    exact hiff.mpr (hfits.trans hle)
  have hid : Identifier k := ⟨hnul, hwell, hroom [] 255 (List.forall_mem_nil _) rfl (by decide)⟩
  have hrollback : Identifier (SAGA_ROLLBACK ++ k) := by
    have hengine : WellFormed (utf16 "$rollback:") := wellFormed_utf16 _
    refine ⟨?_, hengine.append hwell, hroom _ 245 (by decide) rfl (by decide)⟩
    rw [List.mem_append, not_or]
    exact ⟨by decide, hnul⟩
  refine ⟨(requirePortString_identifier rfl).mpr ⟨_, rfl, hrollback⟩,
    (requirePortString_identifier rfl).mpr ⟨_, rfl, hrollback⟩, fun what => ?_,
    (requirePortString_identifier rfl).mpr ⟨_, rfl, hid⟩, fun member errorJson hstep herror => ?_⟩
  · have hother : ¬ startsWith (SAGA_ROLLBACK ++ k) SAGA_STARTED := by
      intro h
      have hthird : ([36, 114, 111] : Str) = [36, 115, 116] := congrArg (List.take 3) h
      exact absurd hthird (by decide)
    exact if_pos hother
  · have htries : fitsCharacters (rollbackTriesUnits k) IDENTIFIER_CHARACTERS :=
      hroom SAGA_TRIES 239 (by decide) rfl le_rfl
    simp only [requireFailedRollback, hstep, herror, requireIdentifiersFit, if_pos htries]
    rfl

/-! ## The whole -/

/-- Where every argument answers a call's entry as it answered the check, the store holds no name
that is not a durable string of an identifier's width, nor does the registry of drivers, and a step
whose start marker a call stores can be recorded as rolled back. -/
theorem no_name_outgrows (h : Reachable Repeats s)
    (hsent : ∀ e ∈ s.history, ∃ method args, PortSends method args args e.batch.call) :
    NamesFit s.db ∧
    (∀ (args : List PortValue) (queue driverId : Str),
      requirePortStrings .driverHeartbeat args = .ok () → arg args 0 = .string queue →
      arg args 1 = .string driverId → Identifier queue ∧ Identifier driverId) ∧
    ∀ (method : PortMethod) (args : List PortValue) (call : Call) (k : Str),
      PortSends method args args call → NamesCheckpoint args method (SAGA_STARTED ++ k) →
      Recordable k := by
  refine ⟨h.namesFit fun e he => ?_, fun args queue driverId haccepted hqueue hdriver => ?_,
    fun method args call k hcall hnames => ?_⟩
  · obtain ⟨method, args, hcall⟩ := hsent e he
    exact hcall.namesFit
  · exact ⟨identifier_of_accepted haccepted (i := 0) rfl rfl hqueue,
      identifier_of_accepted haccepted (i := 1) rfl rfl hdriver⟩
  · obtain ⟨hnul, hwell, hfits⟩ := hcall.started_fits hnames
    exact recordable hnul hwell hfits

/-- A spawn of one task, with no options. -/
def spawnArguments : List PortValue :=
  [.string (units "q"), .string (units "job"), .string (units "null")]

/-- The worker's arguments of the sample claim. -/
def workerArguments : List PortValue :=
  [.string (units "q"), .string (units "t"), .string (units "r1"), .string (units "w1")]

/-- The task starts a step that registered a rollback. -/
def startedMark : Batch := ⟨"b4", .setCheckpoint ⟨"q", "r1", "w1"⟩ "t" ⟨"$started:a", "1"⟩ 1000⟩

def markArguments : List PortValue :=
  workerArguments ++ [.string (units "$started:a"), .string (units "1")]

/-- It spawns a child under the key of its call. -/
def childSpawn : Batch := ⟨"b5", .spawn ⟨"q", "c", "r2", "job", "null", none, .none, 2, none,
  some (text (childSpawnKey (units "t") (units "k"))), 0, some ⟨"q", "r1", "t", "w1"⟩⟩⟩

def childArguments : List PortValue :=
  spawnArguments ++ [.object fun property =>
    if property = "childOf" then .object fun member =>
      if member = "parentQueue" then .string (units "q")
      else if member = "parentTaskId" then .string (units "t")
      else if member = "runId" then .string (units "r1")
      else if member = "claimToken" then .string (units "w1")
      else if member = "replayKey" then .string (units "k") else .undefined
    else .undefined]

/-- It waits for the child. -/
def childAwait : Batch := ⟨"b6", .awaitEvent ⟨"q", "r1", "t", "w1", "s1", .taskDone "c", none⟩⟩

def awaitArguments : List PortValue :=
  workerArguments ++ [.string (units "s1"), .string (units "c")]

def awaitingChild : Sys :=
  ((runningOne.deliver startedMark 3).deliver childSpawn 4).deliver childAwait 5

/-- The store with an awaited child is reachable. -/
theorem awaitingChild_reachable : Reachable Repeats awaitingChild := by
  have hmarked : Reachable Repeats (runningOne.deliver startedMark 3) :=
    .step (runningOne_reachable _) (.first _ _ (by decide) (by decide) trivial)
  have hspawned : Reachable Repeats ((runningOne.deliver startedMark 3).deliver childSpawn 4) :=
    .step hmarked (.first _ _ (by decide) (by decide) ⟨by decide, by decide⟩)
  exact .step hspawned (.first _ _ (by decide) (by decide) ⟨trivial, by decide⟩)

/-- The start marker is a call of the port. -/
theorem startedMark_sends : PortSends .setCheckpoint markArguments markArguments startedMark.call := by
  have hcall : startedMark.call = .setCheckpoint
      ⟨text (units "q"), text (units "r1"), text (units "w1")⟩ (text (units "t"))
      ⟨text (units "$started:a"), text (units "1")⟩ 1000 := by decide +kernel
  have haccepted : requirePortStrings .setCheckpoint markArguments = .ok () := by decide +kernel
  have hfits : requireSagaStepFits "checkpointName" (units "$started:a") = .ok () := by
    decide +kernel
  rw [hcall]
  exact ⟨haccepted, .setCheckpoint rfl rfl rfl rfl rfl rfl hfits⟩

/-- The child's spawn is a call of the port. -/
theorem childSpawn_sends : PortSends .spawn childArguments childArguments childSpawn.call := by
  have hcall : childSpawn.call = .spawn ⟨text (units "q"), "c", "r2", text (units "job"),
      text (units "null"), none, .none, 2, none,
      Option.map text (some (childSpawnKey (units "t") (units "k"))), 0,
      some ⟨text (units "q"), text (units "r1"), text (units "t"), text (units "w1")⟩⟩ := by
    decide +kernel
  have hkey : spawnIdempotencyKey ⟨none, some ⟨units "t", units "k"⟩⟩ =
      .ok (some (childSpawnKey (units "t") (units "k"))) := by decide +kernel
  rw [hcall]
  exact ⟨by decide +kernel, .spawn rfl rfl rfl .none (.some rfl rfl rfl rfl rfl) hkey
    ⟨by decide, by decide⟩ ⟨by decide, by decide⟩⟩

/-- The await of the child is a call of the port. -/
theorem childAwait_sends : PortSends .awaitTaskDone awaitArguments awaitArguments childAwait.call := by
  have hcall : childAwait.call = .awaitEvent ⟨text (units "q"), text (units "r1"), text (units "t"),
      text (units "w1"), text (units "s1"), .taskDone (text (units "c")), none⟩ := by decide
  rw [hcall]
  exact ⟨by decide, .awaitTaskDone rfl rfl rfl rfl rfl rfl rfl⟩

/-- Every call of the run passed the port. -/
theorem awaitingChild_sent : ∀ e ∈ awaitingChild.history,
    ∃ method args, PortSends method args args e.batch.call := by
  have hspawn : spawnOne.call = .spawn ⟨text (units "q"), "t", "r1", text (units "job"),
      text (units "null"), none, .none, 2, none, Option.map text none, 0, none⟩ := by decide
  have hclaim : claimOne.call = .claim ⟨text (units "q"), text (units "w1"), 1000, 1⟩ := by decide
  have hactivate : activateOne.call =
      .activate ⟨text (units "q"), text (units "r1"), text (units "w1"), 1⟩ := by decide
  intro e he
  simp only [awaitingChild, runningOne, Sys.deliver, Sys.init, List.mem_cons, List.not_mem_nil,
    or_false] at he
  obtain rfl | rfl | rfl | rfl | rfl | rfl := he
  · exact ⟨_, _, childAwait_sends⟩
  · exact ⟨_, _, childSpawn_sends⟩
  · exact ⟨_, _, startedMark_sends⟩
  · refine ⟨.activate, [.string (units "q"), .string (units "r1"), .string (units "w1")], ?_⟩
    rw [hactivate]
    exact ⟨by decide, .activate (.claim rfl rfl rfl)⟩
  · refine ⟨.claim, [.string (units "q"), .string (units "w1")], ?_⟩
    rw [hclaim]
    exact ⟨by decide, .claim rfl rfl⟩
  · refine ⟨.spawn, spawnArguments, ?_⟩
    rw [hspawn]
    exact ⟨rfl, .spawn rfl rfl rfl .none .none rfl ⟨by decide, by decide⟩ ⟨by decide, by decide⟩⟩

/-- A task that started a step, spawned a child and waits for it stores no other names. -/
theorem no_name_outgrows_awaitingChild :
    awaitingChild.db.checkpoints.rows.map Checkpoint.checkpointName = ["$started:a"] ∧
      awaitingChild.db.tasks.rows.map Task.idempotencyKey =
        [none, some (text (childSpawnKey (units "t") (units "k")))] ∧
      awaitingChild.db.waits.rows.map Wait.eventName = ["$task-done:c"] ∧
      NamesFit awaitingChild.db ∧ Recordable (units "a") := by
  obtain ⟨hfit, -, hrecordable⟩ := no_name_outgrows awaitingChild_reachable awaitingChild_sent
  exact ⟨by decide +kernel, by decide +kernel, by decide +kernel, hfit,
    hrecordable _ _ _ (units "a") startedMark_sends (.setCheckpoint rfl)⟩

/-- A spawn whose key a getter answers: one text to the check, and another to the entry. -/
def keyedArguments (key : Str) : List PortValue :=
  spawnArguments ++ [.object fun property =>
    if property = "idempotencyKey" then .string key else .undefined]

/-- A key of 300 characters. -/
def longKey : Str := List.replicate 300 107

/-- The batch such a spawn sends. -/
def spawnLong : Batch := ⟨"b1", .spawn ⟨text (units "q"), "t", "r1", text (units "job"),
  text (units "null"), none, .none, 2, none, (some longKey).map text, 0, none⟩⟩

/-- The check reads a member once and the entry reads it again, so an argument whose getter answers
a clean key first and a long one then stores the long one. -/
theorem getter_outgrows :
    ¬ ∀ s, Reachable Repeats s →
      (∀ e ∈ s.history, ∃ method checked entered, PortSends method checked entered e.batch.call) →
      NamesFit s.db := by
  intro hall
  have hreach : Reachable Repeats (Sys.init.deliver spawnLong 0) :=
    .step .init (.first _ _ (by decide) (by decide) ⟨by decide, by decide⟩)
  have hsent : PortSends .spawn (keyedArguments (units "k")) (keyedArguments longKey) spawnLong.call :=
    ⟨by decide +kernel, .spawn rfl rfl rfl (.some longKey) .none rfl ⟨by decide, by decide⟩
      ⟨by decide, by decide⟩⟩
  have hfit := hall _ hreach fun e he => by
    obtain rfl := List.mem_singleton.mp he
    exact ⟨_, _, _, hsent⟩
  obtain ⟨t, ht, hkey⟩ : ∃ t ∈ (Sys.init.deliver spawnLong 0).db.tasks,
      t.idempotencyKey = (some longKey).map text := ⟨_, List.mem_singleton_self _, rfl⟩
  have hwell : WellFormed longKey := by decide +kernel
  have hfits := ((hfit.tasks t ht).idempotencyKey _ hkey).fits
  rw [hwell.utf16_text] at hfits
  exact absurd hfits (by decide +kernel)

end Durablerun
