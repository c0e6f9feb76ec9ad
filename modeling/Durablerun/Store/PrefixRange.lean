import Durablerun.Lib.Prefix
import Durablerun.Store.Invariant

/-!
# The range of a reserved prefix

The names under a reserved prefix are read as a range of the key: from the prefix up to the first name
past it, compared by their bytes. A reserved prefix ends in a colon, and nothing lies between a colon
and a semicolon, so the range holds the names that start with the prefix and no other; the key of a
step is what follows it, whatever it holds.

Reference: `src/packages/core/src/sagas.ts`, `src/packages/store-libsql/src/fragments.ts`.
-/

namespace Durablerun

open Js Relational

/-! ## Names under a prefix -/

section Names

variable {name pre : String}

/-- A name is under a prefix where it starts with it. -/
theorem namedUnder_iff_isPrefix (hpre : (utf16 pre).length = pre.toList.length := by decide) :
    namedUnder name pre ↔ pre.toList <+: name.toList := by
  rw [List.prefix_iff_eq_take, namedUnder, hpre]
  exact eq_comm

/-- A name under a prefix is the prefix and its key, where each character of the prefix is one
unit. -/
theorem namedUnder_iff (hpre : (utf16 pre).length = pre.toList.length := by decide) :
    namedUnder name pre ↔ ∃ key, name = pre ++ key := by
  rw [namedUnder_iff_isPrefix hpre]
  constructor
  · rintro ⟨rest, hrest⟩
    refine ⟨String.ofList rest, String.toList_inj.mp ?_⟩
    rw [String.toList_append, String.toList_ofList, hrest]
  · rintro ⟨key, rfl⟩
    rw [String.toList_append]
    exact List.prefix_append _ _

/-- A prefix with a key is a name under it. -/
theorem namedUnder_append (pre key : String)
    (hpre : (utf16 pre).length = pre.toList.length := by decide) : namedUnder (pre ++ key) pre :=
  (namedUnder_iff hpre).mpr ⟨key, rfl⟩

/-- A name's key is what follows its prefix. -/
theorem keyUnder_append (pre key : String)
    (hpre : (utf16 pre).length = pre.toList.length := by decide) :
    keyUnder (pre ++ key) pre = key := by
  simp [keyUnder, hpre]

/-- Two names of one prefix have two keys. -/
theorem append_injective {key key' : String} (h : pre ++ key = pre ++ key') : key = key' := by
  rw [← String.toList_inj, String.toList_append, String.toList_append] at h
  exact String.toList_inj.mp (List.append_cancel_left h)

end Names

/-! ## Reserved prefixes -/

/-- A prefix that reserves the names under it for the engine: ASCII text that ends in a colon. -/
structure ReservedPrefix where
  text : String
  colon : text.toList.getLast? = some ':'
  ascii : (text.toList.all fun c => c.toNat < 128) = true

def startedPrefix : ReservedPrefix := ⟨SAGA_STARTED_PREFIX, by decide, by decide⟩
def rollbackPrefix : ReservedPrefix := ⟨SAGA_ROLLBACK_PREFIX, by decide, by decide⟩
def triesPrefix : ReservedPrefix := ⟨SAGA_TRIES_PREFIX, by decide, by decide⟩

namespace ReservedPrefix

variable (pre : ReservedPrefix) (name : String)

/-- The prefix with a semicolon for its colon. -/
def past : String := String.ofList (pre.text.toList.dropLast ++ [';'])

/-- A reserved prefix ends in its colon. -/
theorem toList_eq : pre.text.toList = pre.text.toList.dropLast ++ [':'] :=
  (List.dropLast_append_getLast? ':' pre.colon).symm

/-- Each character of ASCII text is one unit. -/
theorem utf16_ascii {cs : List Char} (h : (cs.all fun c => c.toNat < 128) = true) :
    cs.flatMap utf16Char = cs.map fun c => UInt16.ofNat c.toNat := by
  induction cs with
  | nil => rfl
  | cons c cs ih =>
    rw [List.all_cons, Bool.and_eq_true, decide_eq_true_eq] at h
    have hunit : utf16Char c = [UInt16.ofNat c.toNat] := if_pos (by omega)
    rw [List.flatMap_cons, ih h.2, hunit]
    rfl

/-- A reserved prefix has a unit for each character. -/
theorem utf16_text : utf16 pre.text = pre.text.toList.map fun c => UInt16.ofNat c.toNat :=
  utf16_ascii pre.ascii

/-- The prefix is as long as the language counts it. -/
theorem length_utf16 : (utf16 pre.text).length = pre.text.toList.length := by
  rw [utf16_text, List.length_map]

/-- The bound of the range is the prefix with a semicolon for its colon. -/
theorem firstNamePast_eq : firstNamePast (utf16 pre.text) = .ok (utf16 pre.past) := by
  have hlast : (utf16 pre.text).getLast? = some 58 := by
    rw [utf16_text, List.getLast?_map, pre.colon]
    rfl
  have hbound : utf16 pre.past = (utf16 pre.text).dropLast ++ units ";" := by
    have hascii : (pre.text.toList.dropLast.all fun c => c.toNat < 128) = true := by
      refine List.all_eq_true.mpr fun c hc => ?_
      exact List.all_eq_true.mp pre.ascii c (List.mem_of_mem_dropLast hc)
    rw [utf16_text, ← List.map_dropLast, ← utf16_ascii hascii]
    unfold utf16 past
    rw [String.toList_ofList, List.flatMap_append]
    rfl
  unfold firstNamePast
  rw [hlast, hbound]
  rfl

/-- The range is between the bytes of two names. -/
theorem rangeUnder_iff_bytes :
    rangeUnder name pre.text ↔ utf8 pre.text ≤ utf8 name ∧ utf8 name < utf8 pre.past := by
  unfold rangeUnder
  rw [firstNamePast_eq]
  constructor
  · rintro ⟨past, hpast, hrange⟩
    rwa [← Option.some.inj hpast, text_utf16] at hrange
  · exact fun hrange => ⟨_, rfl, by rwa [text_utf16]⟩

/-- The names of the range are those under the prefix. -/
theorem rangeUnder_iff : rangeUnder name pre.text ↔ namedUnder name pre.text := by
  -- Names are compared by their bytes as they are by their characters.
  have hle : utf8 pre.text ≤ utf8 name ↔ pre.text ≤ name := by
    rw [← not_lt (b := pre.text), ← utf8_lt_iff]
    rfl
  rw [rangeUnder_iff_bytes, namedUnder_iff_isPrefix pre.length_utf16, hle, utf8_lt_iff]
  constructor
  · rintro ⟨hle, hlt⟩
    exact Prefix.of_mem_range pre.toList_eq (Prefix.next_char (by decide)) hle hlt
  · exact Prefix.mem_range pre.toList_eq (by decide)

end ReservedPrefix

/-- A name under the start markers' prefix is in the range the engine looks them up by. -/
theorem namedUnder.started {name : String} (h : namedUnder name SAGA_STARTED_PREFIX) :
    rangeUnder name SAGA_STARTED_PREFIX := (startedPrefix.rangeUnder_iff name).mpr h

/-- A rollback's checkpoint is no attempt record. -/
theorem namedUnder.not_tries {name : String} (h : namedUnder name SAGA_ROLLBACK_PREFIX) :
    ¬ namedUnder name SAGA_TRIES_PREFIX := by
  intro htries
  have hpre : SAGA_ROLLBACK_PREFIX.toList <+: SAGA_TRIES_PREFIX.toList :=
    List.prefix_of_prefix_length_le ((namedUnder_iff_isPrefix).mp h)
      ((namedUnder_iff_isPrefix).mp htries) (by decide)
  exact absurd hpre (by decide)

/-- The tries records are found by a range of names. -/
theorem rangeUnder_tries {name : String} :
    rangeUnder name SAGA_TRIES_PREFIX ↔ namedUnder name SAGA_TRIES_PREFIX :=
  triesPrefix.rangeUnder_iff name

/-! ## The range is the prefix -/

/-- No rollback is pending when every step that started has its rollback's checkpoint. -/
theorem rollbackPending_iff {db : Db} {taskId : String} : rollbackPending db taskId ↔
    ∃ key, HasCheckpoint db taskId (SAGA_STARTED_PREFIX ++ key) ∧
      ¬ HasCheckpoint db taskId (SAGA_ROLLBACK_PREFIX ++ key) := by
  have hrange : ∀ name, rangeUnder name SAGA_STARTED_PREFIX ↔
      ∃ key, name = SAGA_STARTED_PREFIX ++ key := fun name =>
    (startedPrefix.rangeUnder_iff name).trans namedUnder_iff
  have hkey : ∀ key, keyUnder (SAGA_STARTED_PREFIX ++ key) SAGA_STARTED_PREFIX = key :=
    fun key => keyUnder_append _ key
  constructor
  · rintro ⟨c, hc, hid, hname, hno⟩
    obtain ⟨key, hname⟩ := (hrange _).mp hname
    refine ⟨key, ⟨c, hc, hid, hname⟩, fun ⟨c', hc', hid', hname'⟩ => hno ?_⟩
    exact ⟨c', hc', hid'.trans hid.symm, by rw [hname', hname, hkey]⟩
  · rintro ⟨key, ⟨c, hc, hid, hname⟩, hno⟩
    refine ⟨c, hc, hid, (hrange _).mpr ⟨key, hname⟩, fun ⟨c', hc', hid', hname'⟩ => hno ?_⟩
    rw [hname, hkey] at hname'
    exact ⟨c', hc', hid'.trans hid, hname'⟩

/-- The readings of a name under a prefix: by the range of the key, by the substring, and as what it
is. -/
structure ReservedPrefix.Reads (pre : ReservedPrefix) (name : String) : Prop where
  bound : firstNamePast (utf16 pre.text) = .ok (utf16 pre.past)
  compared : rangeUnder name pre.text ↔ utf8 pre.text ≤ utf8 name ∧ utf8 name < utf8 pre.past
  range : rangeUnder name pre.text ↔ namedUnder name pre.text
  starts : namedUnder name pre.text ↔ ∃ key, name = pre.text ++ key

/-- Every reading of a reserved prefix is the prefix, so a saga is owed a rollback exactly where the
key of a start marker has no rollback's checkpoint. -/
theorem reserved_range_is_prefix :
    (∀ (pre : ReservedPrefix) (name : String), pre.Reads name) ∧
      ∀ (db : Db) (taskId : String), rollbackPending db taskId ↔
        ∃ key, HasCheckpoint db taskId (startedPrefix.text ++ key) ∧
          ¬ HasCheckpoint db taskId (rollbackPrefix.text ++ key) :=
  ⟨fun pre name => ⟨pre.firstNamePast_eq, pre.rangeUnder_iff_bytes name, pre.rangeUnder_iff name,
    namedUnder_iff pre.length_utf16⟩, fun _ _ => rollbackPending_iff⟩

end Durablerun
