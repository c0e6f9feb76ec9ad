import Durablerun.Sdk.DeliveryOrder
import Mathlib.Data.Finset.Card
import Mathlib.Data.Finset.Range
import Mathlib.Data.List.Pairwise
import Mathlib.Logic.Relation

/-!
# What a delivery order keeps

A number has a holder: it is waited for at most once, and released or abandoned at most once. Every
call is a change of its own and some small steps of the queue; each of these keeps what the events
so far say of the queue, of the waiters and of each event.

Reference: `packages/sdk/src/delivery-order.ts`.
-/

namespace Durablerun.Sdk.DeliveryOrder

/-! ## What the events say -/

section
variable (recorded : List ℕ) (events : List Event)

/-- A number of the queue: of a recorded result, or assigned since. -/
def Queued (n : ℕ) : Prop :=
  n ∈ recorded ∨ .assigned n ∈ events

/-- The number's holder released or abandoned it. -/
def Ended (n : ℕ) : Prop :=
  .released n true ∈ events ∨ .released n false ∈ events ∨ .abandoned n ∈ events

/-- The number was released, abandoned or given up. -/
def Over (n : ℕ) : Prop :=
  Ended events n ∨ .gaveUp n ∈ events

instance (n : ℕ) : Decidable (Queued recorded events n) := inferInstanceAs (Decidable (_ ∨ _))

instance (n : ℕ) : Decidable (Ended events n) := inferInstanceAs (Decidable (_ ∨ _))

instance (n : ℕ) : Decidable (Over events n) := inferInstanceAs (Decidable (_ ∨ _))

/-- A result was released for which a turn is owed, and no turn has passed since. -/
def turnDue : List Event → Bool
  | [] => false
  | .released _ true :: _ => true
  | .turned :: _ => false
  | _ :: events => turnDue events

/-- How many turns are owed. -/
def turnsOwed : List Event → ℕ
  | [] => 0
  | .released _ true :: events => turnsOwed events + 1
  | .turned :: events => turnsOwed events - 1
  | _ :: events => turnsOwed events

/-- What holds of an event, in view of those before it. -/
def Event.Sound (firstLive : ℕ) (older : List Event) : Event → Prop
  | .granted n => (∀ m, .granted m ∈ older → m < n) ∧
      (∀ m, Queued recorded older m → m < n → Over older m) ∧ ¬ Over older n ∧
      turnDue older = false
  | .gaveUp n => n < firstLive ∧ (.waits n ∈ older → .granted n ∈ older)
  | _ => True

/-- Each event is sound. -/
def SoundLog (firstLive : ℕ) : List Event → Prop
  | [] => True
  | e :: older => e.Sound recorded firstLive older ∧ SoundLog firstLive older

end

variable {recorded : List ℕ} {events : List Event} {firstLive highest compactAt : ℕ}
  {o o' : DeliveryOrder} {e : Event} {m n seq : ℕ} {rest : List ℕ}

/-- Every event of a sound log was sound when it came. -/
theorem SoundLog.sound : ∀ (newer : List Event) {older : List Event},
    SoundLog recorded firstLive (newer ++ e :: older) → e.Sound recorded firstLive older
  | [], _, h => h.1
  | _ :: newer, _, h => SoundLog.sound newer h.2

/-! ## What the holders do -/

/-- The calls that the holders of numbers and the worker make of an order that is never opened. -/
def Call.Legal (recorded : List ℕ) (o : DeliveryOrder) : Call → Prop
  | .wait n => Queued recorded o.events n ∧ .waits n ∉ o.events ∧ .answered n ∉ o.events ∧
      .granted n ∉ o.events
  | .release n _ | .abandon n => Queued recorded o.events n ∧ ¬ Ended o.events n
  | .settled => 0 < o.owed
  | .open => False
  | .assign | .reserve | .beat | .giveUpOnHead | .useTurn | .idle => True

/-- Every call of the run is one that its holder makes. -/
def LegalRun (recorded : List ℕ) (compactAt : ℕ) : DeliveryOrder → List Call → Prop
  | _, [] => True
  | o, call :: calls =>
    call.Legal recorded o ∧ LegalRun recorded compactAt (o.step compactAt call) calls

/-! ## The small steps -/

/-- What `advance` and `wake` are made of. -/
inductive Small (o : DeliveryOrder) : DeliveryOrder → Prop where
  | pass (seq : ℕ) (rest : List ℕ) : o.pending = seq :: rest → seq ∈ o.done → Small o (o.pass seq)
  | compact (compactAt : ℕ) : Small o (o.compact compactAt)
  | stopDraining : Small o { o with draining := false }
  | notifyIdle : Small o o.notifyIdle
  | grant (seq : ℕ) (waiter : Waiter) : o.pending.head? = some seq → seq ∉ o.done →
      o.settling = false → o.waiting seq = some waiter → Small o (o.grant seq waiter)
  | giveUp (seq : ℕ) : o.pending.head? = some seq → seq ∉ o.done → seq < o.firstLive →
      o.waiting seq = none → Small o (o.giveUp seq)

abbrev Smalls := Relation.ReflTransGen Small

/-- Passing over the head leaves the rest pending. -/
theorem pending_pass (h : o.pending = seq :: rest) : (o.pass seq).pending = rest := by
  have htail := congrArg List.tail h
  rwa [pending, List.tail_drop] at htail

/-- Compacting the queue leaves what is pending. -/
@[simp]
theorem pending_compact : (o.compact compactAt).pending = o.pending := by
  unfold compact
  split
  · exact List.drop_zero
  · rfl

/-- `passDone` stops at a head that is not done. -/
theorem passDone_spec : ∀ (queued : List ℕ) (o : DeliveryOrder), o.pending = queued →
    Smalls o (passDone queued o) ∧
      ∀ n, (passDone queued o).pending.head? = some n → n ∉ (passDone queued o).done
  | [], o, h => by
    refine ⟨.refl, fun n hn => ?_⟩
    rw [passDone, h] at hn
    exact absurd hn (by simp)
  | seq :: rest, o, h => by
    rw [passDone]
    split
    case isTrue hdone =>
      have ih := passDone_spec rest (o.pass seq) (pending_pass h)
      exact ⟨.head (.pass _ _ h hdone) ih.1, ih.2⟩
    case isFalse hdone =>
      refine ⟨.refl, fun n hn => ?_⟩
      rw [h, List.head?_cons, Option.some_inj] at hn
      exact hn ▸ hdone

/-- Advancing is a run of small steps. -/
theorem advance_smalls (compactAt : ℕ) (o : DeliveryOrder) : Smalls o (o.advance compactAt) :=
  (passDone_spec o.pending o rfl).1.tail (.compact compactAt)

/-- Compacting the queue leaves what is done. -/
@[simp]
theorem compact_done : (o.compact compactAt).done = o.done := by
  unfold compact
  split <;> rfl

/-- What advancing leaves at the head is not done. -/
theorem advance_head (h : (o.advance compactAt).pending.head? = some n) :
    n ∉ (o.advance compactAt).done := by
  rw [advance, pending_compact] at h
  rw [advance, compact_done]
  exact (passDone_spec o.pending o rfl).2 n h

/-- The loop of a wake is a run of small steps. -/
theorem wakeLoop_smalls (compactAt : ℕ) : ∀ (rounds : ℕ) (o : DeliveryOrder),
    Smalls o (o.wakeLoop compactAt rounds)
  | 0, _ => .refl
  | rounds + 1, o => by
    have hadvance := advance_smalls compactAt o
    rw [wakeLoop]
    split
    case isTrue => exact hadvance
    case isFalse hsettling =>
      rw [Bool.not_eq_true] at hsettling
      split
      case isTrue => exact (hadvance.tail .stopDraining).tail .notifyIdle
      case isFalse =>
        split
        case h_1 => exact hadvance
        case h_2 seq hhead =>
          have hdone := advance_head hhead
          split
          case h_1 waiter hwaiting =>
            exact (hadvance.tail (.grant _ _ hhead hdone hsettling hwaiting)).tail .notifyIdle
          case h_2 hwaiting =>
            split
            case isTrue => exact hadvance
            case isFalse hdraining =>
              simp only [Bool.or_eq_true, decide_eq_true_eq, not_or, not_le] at hdraining
              exact (hadvance.tail (.giveUp _ hhead hdone hdraining.2 hwaiting)).trans
                (wakeLoop_smalls compactAt rounds _)

/-- A wake is a run of small steps. -/
theorem wake_smalls (compactAt : ℕ) (o : DeliveryOrder) : Smalls o (o.wake compactAt) :=
  wakeLoop_smalls compactAt _ o

/-! ## The queue and its numbers -/

/-- The queue holds its numbers in ascending order until they are over. -/
structure Placed (recorded : List ℕ) (o : DeliveryOrder) : Prop where
  within : o.head ≤ o.queue.length
  floor : o.floor ≤ o.next
  ascending : o.pending.Pairwise (· < ·)
  behind : ∀ n ∈ o.pending, o.floor ≤ n
  queued : ∀ n ∈ o.pending, Queued recorded o.events n
  below : ∀ n, Queued recorded o.events n → n < o.next
  held : ∀ n, Queued recorded o.events n → n ∈ o.pending ∨ Over o.events n
  known : ∀ n, Over o.events n → Queued recorded o.events n
  done : ∀ n ∈ o.done, Over o.events n
  overDone : ∀ n ∈ o.pending, Over o.events n → n ∈ o.done
  granted : ∀ n, .granted n ∈ o.events → Queued recorded o.events n ∧
    (Over o.events n ∨ o.pending.head? = some n) ∧ ∀ m ∈ o.pending, n ≤ m

/-- The waiters of the map wait for their numbers, and the others were resolved. -/
structure Waiters (recorded : List ℕ) (o : DeliveryOrder) : Prop where
  promised : ∀ n waiter, o.waiting n = some waiter → waiter.place < o.promises ∧
    waiter.place ∉ o.woken ∧ .waits n ∈ o.events ∧ .granted n ∉ o.events
  apart : ∀ m n waiter waiter', o.waiting m = some waiter → o.waiting n = some waiter' →
    waiter.place = waiter'.place → m = n
  waits : ∀ n, .waits n ∈ o.events → .granted n ∉ o.events → o.waiting n ≠ none
  queued : ∀ n, .waits n ∈ o.events → Queued recorded o.events n
  woken : o.woken ⊆ Finset.range o.promises
  count : o.waitingCount = (Finset.range o.promises \ o.woken).card

/-- What every run keeps. -/
structure Inv (recorded : List ℕ) (highest : ℕ) (o : DeliveryOrder) : Prop where
  placed : Placed recorded o
  waiters : Waiters recorded o
  settling : o.settling = turnDue o.events
  shut : o.isOpen = false
  live : o.firstLive = highest + 1
  sound : SoundLog recorded (highest + 1) o.events

/-- No pending number is below the head. -/
theorem Placed.le_of_head (h : Placed recorded o) (hhead : o.pending.head? = some seq)
    (hn : n ∈ o.pending) : seq ≤ n := by
  obtain ⟨rest, hrest⟩ := List.head?_eq_some_iff.mp hhead
  have hascending := h.ascending
  rw [hrest] at hascending hn
  rcases List.mem_cons.mp hn with rfl | hn
  · exact le_rfl
  · exact (List.rel_of_pairwise_cons hascending hn).le

/-- The head is pending. -/
theorem mem_of_head (hhead : o.pending.head? = some seq) : seq ∈ o.pending :=
  List.mem_of_mem_head? hhead

/-- A number is granted when it comes to the head: what is before it is over, and it is not. -/
theorem Placed.grantable (h : Placed recorded o) (hhead : o.pending.head? = some seq)
    (hdone : seq ∉ o.done) (hnew : .granted seq ∉ o.events) (hdue : turnDue o.events = false) :
    (Event.granted seq).Sound recorded firstLive o.events := by
  have hmem := mem_of_head hhead
  refine ⟨fun m hm => ?_, fun m hqueued hlt => ?_, fun hover => ?_, hdue⟩
  · refine lt_of_le_of_ne ((h.granted m hm).2.2 seq hmem) ?_
    rintro rfl
    exact hnew hm
  · refine (h.held m hqueued).resolve_left fun hpending => ?_
    exact absurd (h.le_of_head hhead hpending) (not_le.mpr hlt)
  · exact hdone (h.overDone seq hmem hover)

/-- Granting the head leaves every number placed. -/
theorem Placed.grant (h : Placed recorded o) (hhead : o.pending.head? = some seq)
    (hevents : o'.events = .granted seq :: o.events) (hpending : o'.pending = o.pending)
    (hwithin : o'.head ≤ o'.queue.length) (hfloor : o'.floor = o.floor) (hdone : o'.done = o.done)
    (hnext : o'.next = o.next) : Placed recorded o' := by
  have hqueued : ∀ n, Queued recorded o'.events n ↔ Queued recorded o.events n := by
    simp [Queued, hevents]
  have hover : ∀ n, Over o'.events n ↔ Over o.events n := by
    simp [Over, Ended, hevents]
  refine ⟨hwithin, ?_, ?_, ?_, ?_, ?_, ?_, ?_, ?_, ?_, ?_⟩ <;>
    simp only [hpending, hfloor, hdone, hnext, hqueued, hover]
  · exact h.floor
  · exact h.ascending
  · exact h.behind
  · exact h.queued
  · exact h.below
  · exact h.held
  · exact h.known
  · exact h.done
  · exact h.overDone
  · intro n hn
    rw [hevents, List.mem_cons, Event.granted.injEq] at hn
    rcases hn with rfl | hn
    · exact ⟨h.queued n (mem_of_head hhead), .inr hhead, fun m => h.le_of_head hhead⟩
    · exact h.granted n hn

/-- Passing over a number that is done leaves every number placed. -/
theorem Placed.pass (h : Placed recorded o) (hpending : o.pending = seq :: rest)
    (hdone : seq ∈ o.done) : Placed recorded (o.pass seq) := by
  have hascending := hpending ▸ h.ascending
  have hover := h.done seq hdone
  have hmem : ∀ n, n ∈ rest → n ∈ o.pending := fun n hn => hpending ▸ List.mem_cons_of_mem _ hn
  have hlt : ∀ n, n ∈ rest → seq < n := fun n => List.rel_of_pairwise_cons hascending
  have hlength := congrArg List.length hpending
  refine ⟨?_, ?_, ?_, ?_, ?_, h.below, ?_, h.known, ?_, ?_, ?_⟩ <;>
    try rw [pending_pass hpending]
  · rw [pending, List.length_drop, List.length_cons] at hlength
    change o.head + 1 ≤ o.queue.length
    omega
  · exact Nat.succ_le_of_lt (h.below seq (h.known seq hover))
  · exact (List.pairwise_cons.mp hascending).2
  · exact fun n hn => Nat.succ_le_of_lt (hlt n hn)
  · exact fun n hn => h.queued n (hmem n hn)
  · intro n hn
    rcases h.held n hn with hheld | hheld
    · rw [hpending, List.mem_cons] at hheld
      rcases hheld with rfl | hheld
      · exact .inr hover
      · exact .inl hheld
    · exact .inr hheld
  · exact fun n hn => h.done n (Finset.mem_of_mem_erase hn)
  · exact fun n hn ho => Finset.mem_erase.mpr ⟨(hlt n hn).ne', h.overDone n (hmem n hn) ho⟩
  · intro n hn
    obtain ⟨hqueued, hplace, hle⟩ := h.granted n hn
    refine ⟨hqueued, .inl ?_, fun m hm => hle m (hmem m hm)⟩
    rcases hplace with hplace | hplace
    · exact hplace
    · rw [hpending, List.head?_cons, Option.some_inj] at hplace
      exact hplace ▸ hover

/-- A number of the queue is over. -/
theorem Placed.end (h : Placed recorded o) (hseq : Queued recorded o.events seq)
    (hevents : o'.events = e :: o.events) (hpending : o'.pending = o.pending)
    (hwithin : o'.head ≤ o'.queue.length) (hfloor : o'.floor = o.floor)
    (hdone : o'.done = insert seq o.done) (hnext : o'.next = o.next)
    (hends : ∀ n, Over (e :: o.events) n ↔ n = seq ∨ Over o.events n)
    (hassigned : ∀ n, e ≠ .assigned n) (hgranted : ∀ n, e ≠ .granted n) :
    Placed recorded o' := by
  have hqueued : ∀ n, Queued recorded o'.events n ↔ Queued recorded o.events n := fun n => by
    simp [Queued, hevents, (hassigned n).symm]
  have hover : ∀ n, Over o'.events n ↔ n = seq ∨ Over o.events n := fun n => hevents ▸ hends n
  refine ⟨hwithin, ?_, ?_, ?_, ?_, ?_, ?_, ?_, ?_, ?_, ?_⟩ <;>
    simp only [hpending, hfloor, hdone, hnext, hqueued, hover]
  · exact h.floor
  · exact h.ascending
  · exact h.behind
  · exact h.queued
  · exact h.below
  · exact fun n hn => (h.held n hn).imp_right .inr
  · rintro n (rfl | hn)
    · exact hseq
    · exact h.known n hn
  · exact fun n hn => (Finset.mem_insert.mp hn).imp_right (h.done n)
  · exact fun n hn ho => Finset.mem_insert.mpr (ho.imp_right (h.overDone n hn))
  · intro n hn
    rw [hevents, List.mem_cons] at hn
    obtain ⟨hqueued, hplace, hle⟩ := h.granted n (hn.resolve_left (hgranted n).symm)
    exact ⟨hqueued, hplace.imp_left .inr, hle⟩

/-! ## The waiters -/

/-- An event that is no wait's and no grant leaves the waiters as they were. -/
theorem Waiters.other (h : Waiters recorded o) (hwaiting : o'.waiting = o.waiting)
    (hpromises : o'.promises = o.promises) (hwoken : o'.woken = o.woken)
    (hcount : o'.waitingCount = o.waitingCount)
    (hwaits : ∀ n, .waits n ∈ o'.events ↔ .waits n ∈ o.events)
    (hgranted : ∀ n, .granted n ∈ o'.events ↔ .granted n ∈ o.events)
    (hqueued : ∀ n, Queued recorded o.events n → Queued recorded o'.events n) :
    Waiters recorded o' := by
  refine ⟨?_, ?_, ?_, ?_, ?_, ?_⟩ <;>
    simp only [hwaiting, hpromises, hwoken, hcount, hwaits, hgranted]
  · exact h.promised
  · exact h.apart
  · exact h.waits
  · exact fun n hn => hqueued n (h.queued n hn)
  · exact h.woken
  · exact h.count

/-- No wait is pending where none is counted. -/
theorem Waiters.none_waits (h : Waiters recorded o) (hcount : o.waitingCount = 0) (n : ℕ) :
    o.waiting n = none := by
  rw [h.count, Finset.card_eq_zero] at hcount
  rw [Option.eq_none_iff_forall_ne_some]
  intro waiter hwaiter
  obtain ⟨hplace, hwoken, -⟩ := h.promised n waiter hwaiter
  have hmem := Finset.mem_sdiff.mpr ⟨Finset.mem_range.mpr hplace, hwoken⟩
  exact absurd (hcount ▸ hmem) (Finset.notMem_empty _)

/-- What a grant makes of the order, field by field. -/
theorem grant_eq (h : Waiters recorded o) {waiter : Waiter}
    (hwaiter : o.waiting seq = some waiter) :
    o.grant seq waiter = { o with
      waiting := Function.update o.waiting seq none
      woken := insert waiter.place o.woken
      waitingCount := o.waitingCount - 1
      events := .granted seq :: o.events } := by
  rw [DeliveryOrder.grant, resolve, if_neg (h.promised seq waiter hwaiter).2.1]

/-- A grant takes its waiter away and keeps the others. -/
theorem Waiters.grant (h : Waiters recorded o) {waiter : Waiter}
    (hwaiter : o.waiting seq = some waiter) : Waiters recorded (o.grant seq waiter) := by
  obtain ⟨hplace, hwoken, -, -⟩ := h.promised seq waiter hwaiter
  rw [grant_eq h hwaiter]
  have hheld : ∀ n w, Function.update o.waiting seq none n = some w →
      n ≠ seq ∧ o.waiting n = some w := by
    intro n w hw
    rcases eq_or_ne n seq with rfl | hne
    · rw [Function.update_self] at hw
      exact absurd hw (by simp)
    · rw [Function.update_of_ne hne] at hw
      exact ⟨hne, hw⟩
  refine ⟨?_, ?_, ?_, ?_, ?_, ?_⟩
  · intro n w hw
    obtain ⟨hne, hw⟩ := hheld n w hw
    obtain ⟨hlt, hnew, hwaits, hgranted⟩ := h.promised n w hw
    refine ⟨hlt, ?_, List.mem_cons_of_mem _ hwaits, ?_⟩
    · rw [Finset.mem_insert, not_or]
      exact ⟨fun heq => hne (h.apart n seq w waiter hw hwaiter heq), hnew⟩
    · rw [List.mem_cons, Event.granted.injEq, not_or]
      exact ⟨hne, hgranted⟩
  · exact fun m n w w' hw hw' => h.apart m n w w' (hheld m w hw).2 (hheld n w' hw').2
  · intro n hwaits hgranted
    simp only [List.mem_cons, Event.granted.injEq, reduceCtorEq, false_or, not_or]
      at hwaits hgranted
    change Function.update o.waiting seq none n ≠ none
    rw [Function.update_of_ne hgranted.1]
    exact h.waits n hwaits hgranted.2
  · intro n hn
    have hn := h.queued n ((List.mem_cons.mp hn).resolve_left (by simp))
    exact hn.imp_right (List.mem_cons_of_mem _)
  · exact Finset.insert_subset (Finset.mem_range.mpr hplace) h.woken
  · change o.waitingCount - 1 = _
    rw [h.count, Finset.sdiff_insert, Finset.card_erase_of_mem]
    exact Finset.mem_sdiff.mpr ⟨Finset.mem_range.mpr hplace, hwoken⟩

/-- A promise adds a waiter for a number that has none. -/
theorem Waiters.promise (h : Waiters recorded o) (hseq : Queued recorded o.events seq)
    (hnew : .waits seq ∉ o.events) (hgranted : .granted seq ∉ o.events) :
    Waiters recorded (o.promise seq) := by
  -- The only waiter that is new is the number's own, in a place none had before.
  have hwaiting : ∀ n w, Function.update o.waiting seq (some ⟨o.promises, seq⟩) n = some w →
      n = seq ∧ w.place = o.promises ∨ n ≠ seq ∧ o.waiting n = some w := by
    intro n w hw
    rcases eq_or_ne n seq with rfl | hne
    · rw [Function.update_self, Option.some_inj] at hw
      exact .inl ⟨rfl, hw ▸ rfl⟩
    · rw [Function.update_of_ne hne] at hw
      exact .inr ⟨hne, hw⟩
  have hfresh : o.promises ∉ o.woken := fun hmem =>
    absurd (Finset.mem_range.mp (h.woken hmem)) (lt_irrefl _)
  refine ⟨?_, ?_, ?_, ?_, ?_, ?_⟩
  · intro n w hw
    rcases hwaiting n w hw with ⟨rfl, hplace⟩ | ⟨hne, hw⟩
    · rw [hplace]
      exact ⟨Nat.lt_succ_self _, hfresh, List.mem_cons_self,
        by simpa [DeliveryOrder.promise, happens]⟩
    · obtain ⟨hlt, hwoken, hwaits, hgranted⟩ := h.promised n w hw
      exact ⟨Nat.lt_succ_of_lt hlt, hwoken, List.mem_cons_of_mem _ hwaits,
        by simpa [DeliveryOrder.promise, happens]⟩
  · intro m n w w' hw hw' heq
    rcases hwaiting m w hw with ⟨hm, hplace⟩ | ⟨-, hold⟩ <;>
      rcases hwaiting n w' hw' with ⟨hn, hplace'⟩ | ⟨-, hold'⟩
    · exact hm.trans hn.symm
    · exact absurd (h.promised n w' hold').1 (by omega)
    · exact absurd (h.promised m w hold).1 (by omega)
    · exact h.apart m n w w' hold hold' heq
  · intro n hwaits hgranted
    change Function.update o.waiting seq _ n ≠ none
    rcases eq_or_ne n seq with rfl | hne
    · rw [Function.update_self]
      exact Option.some_ne_none _
    · rw [Function.update_of_ne hne]
      simp only [DeliveryOrder.promise, happens, List.mem_cons, Event.waits.injEq, reduceCtorEq,
        false_or] at hwaits hgranted
      exact h.waits n (hwaits.resolve_left hne) hgranted
  · intro n hn
    simp only [DeliveryOrder.promise, happens, List.mem_cons, Event.waits.injEq] at hn
    rcases hn with rfl | hn
    · exact hseq.imp_right (List.mem_cons_of_mem _)
    · exact (h.queued n hn).imp_right (List.mem_cons_of_mem _)
  · exact h.woken.trans (Finset.range_subset_range.mpr (Nat.le_succ _))
  · change o.waitingCount + 1 = (Finset.range (o.promises + 1) \ o.woken).card
    rw [Finset.range_add_one, Finset.insert_sdiff_of_notMem _ hfresh, Finset.card_insert_of_notMem,
      h.count]
    exact fun hmem => absurd (Finset.mem_range.mp (Finset.mem_sdiff.mp hmem).1) (lt_irrefl _)

/-! ## Each step keeps them -/

/-- Compacting keeps the head within the queue. -/
theorem Placed.within_compact (h : o.head ≤ o.queue.length) :
    (o.compact compactAt).head ≤ (o.compact compactAt).queue.length := by
  unfold compact
  split
  · exact Nat.zero_le _
  · exact h

/-- What the queue and the waiters say is about the fields they name. -/
theorem Inv.same (h : Inv recorded highest o) (hpending : o'.pending = o.pending)
    (hwithin : o'.head ≤ o'.queue.length) (hfloor : o'.floor = o.floor) (hdone : o'.done = o.done)
    (hwaiting : o'.waiting = o.waiting) (hpromises : o'.promises = o.promises)
    (hwoken : o'.woken = o.woken) (hcount : o'.waitingCount = o.waitingCount)
    (hnext : o.next ≤ o'.next) (hsettling : o'.settling = o.settling)
    (hopen : o'.isOpen = o.isOpen) (hlive : o'.firstLive = o.firstLive)
    (hevents : o'.events = o.events) : Inv recorded highest o' where
  placed := by
    refine ⟨hwithin, ?_, ?_, ?_, ?_, ?_, ?_, ?_, ?_, ?_, ?_⟩ <;>
      simp only [hpending, hfloor, hdone, hevents]
    · exact h.placed.floor.trans hnext
    · exact h.placed.ascending
    · exact h.placed.behind
    · exact h.placed.queued
    · exact fun n hn => (h.placed.below n hn).trans_le hnext
    · exact h.placed.held
    · exact h.placed.known
    · exact h.placed.done
    · exact h.placed.overDone
    · exact h.placed.granted
  waiters := h.waiters.other hwaiting hpromises hwoken hcount (fun _ => by rw [hevents])
    (fun _ => by rw [hevents]) fun _ hn => by rwa [hevents]
  settling := by rw [hsettling, hevents, h.settling]
  shut := hopen.trans h.shut
  live := hlive.trans h.live
  sound := hevents ▸ h.sound

/-- A grant of the head to its waiter keeps the invariant. -/
theorem Inv.grant (h : Inv recorded highest o) {waiter : Waiter}
    (hhead : o.pending.head? = some seq) (hdone : seq ∉ o.done) (hsettling : o.settling = false)
    (hwaiter : o.waiting seq = some waiter) : Inv recorded highest (o.grant seq waiter) := by
  have hgranted := (h.waiters.promised seq waiter hwaiter).2.2.2
  have hwaiters := h.waiters.grant hwaiter
  have hdue := h.settling ▸ hsettling
  rw [grant_eq h.waiters hwaiter] at hwaiters ⊢
  exact {
    placed := h.placed.grant hhead rfl rfl h.placed.within rfl rfl rfl
    waiters := hwaiters
    settling := h.settling
    shut := h.shut
    live := h.live
    sound := ⟨h.placed.grantable hhead hdone hgranted hdue, h.sound⟩ }

/-- After a number was given up, it is over, and so is what was over before. -/
theorem over_gaveUp : Over (.gaveUp seq :: events) n ↔ n = seq ∨ Over events n := by
  simp only [Over, Ended, List.mem_cons, Event.gaveUp.injEq, reduceCtorEq, false_or]
  tauto

/-- Giving up a head that nobody waits for keeps the invariant. -/
theorem Inv.giveUp (h : Inv recorded highest o) (hhead : o.pending.head? = some seq)
    (hlive : seq < o.firstLive) (hwaiting : o.waiting seq = none) :
    Inv recorded highest (o.giveUp seq) where
  placed := h.placed.end (h.placed.queued seq (mem_of_head hhead)) rfl rfl h.placed.within rfl
    rfl rfl (fun _ => over_gaveUp) (by simp) (by simp)
  waiters := h.waiters.other rfl rfl rfl rfl (by simp [DeliveryOrder.giveUp])
    (by simp [DeliveryOrder.giveUp]) fun _ => Or.imp_right (List.mem_cons_of_mem _)
  settling := h.settling
  shut := h.shut
  live := h.live
  sound := by
    refine ⟨⟨h.live ▸ hlive, fun hwaits => ?_⟩, h.sound⟩
    by_contra hgranted
    exact h.waiters.waits seq hwaits hgranted hwaiting

/-- A small step keeps the invariant. -/
theorem Small.inv (hstep : Small o o') (h : Inv recorded highest o) : Inv recorded highest o' := by
  cases hstep with
  | pass seq rest hpending hdone =>
    exact ⟨h.placed.pass hpending hdone, h.waiters.other rfl rfl rfl rfl (fun _ => .rfl)
      (fun _ => .rfl) (fun _ => id), h.settling, h.shut, h.live, h.sound⟩
  | compact bound =>
    refine h.same pending_compact (Placed.within_compact h.placed.within) ?_ ?_ ?_ ?_ ?_ ?_ ?_ ?_ ?_
      ?_ ?_ <;>
      (unfold DeliveryOrder.compact; split <;> simp)
  | stopDraining =>
    exact h.same rfl h.placed.within rfl rfl rfl rfl rfl rfl le_rfl rfl rfl rfl rfl
  | notifyIdle =>
    unfold DeliveryOrder.notifyIdle
    split
    · exact h
    · exact h.same rfl h.placed.within rfl rfl rfl rfl rfl rfl le_rfl rfl rfl rfl rfl
  | grant seq waiter hhead hdone hsettling hwaiter => exact h.grant hhead hdone hsettling hwaiter
  | giveUp seq hhead _ hlive hwaiting => exact h.giveUp hhead hlive hwaiting

/-- A run of small steps keeps the invariant. -/
theorem Smalls.inv (hsteps : Smalls o o') (h : Inv recorded highest o) :
    Inv recorded highest o' := by
  induction hsteps with
  | refl => exact h
  | tail _ hstep ih => exact hstep.inv ih

/-! ## Each call keeps them -/

/-- An event that ends no number leaves the same numbers over. -/
theorem over_cons_of (he : ∀ n, e ≠ .released n true ∧ e ≠ .released n false ∧ e ≠ .abandoned n ∧
    e ≠ .gaveUp n) : Over (e :: events) n ↔ Over events n := by
  obtain ⟨h₁, h₂, h₃, h₄⟩ := he n
  simp [Over, Ended, h₁.symm, h₂.symm, h₃.symm, h₄.symm]

/-- Assigning the next number keeps the invariant. -/
theorem Inv.assign (h : Inv recorded highest o) : Inv recorded highest o.assign := by
  have hpending : o.assign.pending = o.pending ++ [o.next] :=
    List.drop_append_of_le_length h.placed.within
  -- A new number is at the end of the queue, not over, and larger than every one before it.
  have hover : ∀ n, Over o.assign.events n ↔ Over o.events n := fun n => over_cons_of (by simp)
  have hqueued : ∀ n, Queued recorded o.assign.events n ↔
      n = o.next ∨ Queued recorded o.events n := by
    intro n
    simp only [Queued, DeliveryOrder.assign, happens, List.mem_cons, Event.assigned.injEq]
    tauto
  have hbelow : ∀ n ∈ o.pending, n < o.next := fun n hn => h.placed.below n (h.placed.queued n hn)
  refine ⟨⟨?_, ?_, ?_, ?_, ?_, ?_, ?_, ?_, ?_, ?_, ?_⟩, ?_, h.settling, h.shut, h.live, trivial,
    h.sound⟩
  · change o.head ≤ (o.queue ++ [o.next]).length
    exact h.placed.within.trans (List.length_append ▸ Nat.le_add_right _ _)
  · exact h.placed.floor.trans (Nat.le_succ _)
  · rw [hpending, List.pairwise_append]
    refine ⟨h.placed.ascending, List.pairwise_singleton _ _, fun n hn m hm => ?_⟩
    exact List.mem_singleton.mp hm ▸ hbelow n hn
  · intro n hn
    rw [hpending, List.mem_append, List.mem_singleton] at hn
    rcases hn with hn | rfl
    · exact h.placed.behind n hn
    · exact h.placed.floor
  · intro n hn
    rw [hpending, List.mem_append, List.mem_singleton] at hn
    exact (hqueued n).mpr (hn.symm.imp_right (h.placed.queued n))
  · intro n hn
    rcases (hqueued n).mp hn with rfl | hn
    · exact Nat.lt_succ_self _
    · exact (h.placed.below n hn).trans (Nat.lt_succ_self _)
  · intro n hn
    rw [hpending, List.mem_append, List.mem_singleton, hover]
    rcases (hqueued n).mp hn with rfl | hn
    · exact .inl (.inr rfl)
    · exact (h.placed.held n hn).imp_left .inl
  · exact fun n hn => (hqueued n).mpr (.inr (h.placed.known n ((hover n).mp hn)))
  · exact fun n hn => (hover n).mpr (h.placed.done n hn)
  · intro n hn ho
    have ho := (hover n).mp ho
    rw [hpending, List.mem_append, List.mem_singleton] at hn
    rcases hn with hn | rfl
    · exact h.placed.overDone n hn ho
    · exact absurd (h.placed.below _ (h.placed.known _ ho)) (lt_irrefl _)
  · intro n hn
    have hn := (List.mem_cons.mp hn).resolve_left (by simp)
    obtain ⟨hq, hplace, hle⟩ := h.placed.granted n hn
    refine ⟨(hqueued n).mpr (.inr hq), ?_, fun m hm => ?_⟩
    · rw [hover, hpending]
      refine hplace.imp_right fun hhead => ?_
      rw [List.head?_append, hhead, Option.some_or]
    · rw [hpending, List.mem_append, List.mem_singleton] at hm
      rcases hm with hm | rfl
      · exact hle m hm
      · exact (h.placed.below n hq).le
  · exact h.waiters.other rfl rfl rfl rfl (by simp [DeliveryOrder.assign, happens])
      (by simp [DeliveryOrder.assign, happens]) fun n hn => (hqueued n).mpr (.inr hn)

/-- An event that says nothing of the queue's numbers. -/
theorem Placed.other (h : Placed recorded o) (hevents : o'.events = e :: o.events)
    (hassigned : ∀ n, e ≠ .assigned n) (hgranted : ∀ n, e ≠ .granted n)
    (hover : ∀ n, Over (e :: o.events) n ↔ Over o.events n) (hpending : o'.pending = o.pending)
    (hwithin : o'.head ≤ o'.queue.length) (hfloor : o'.floor = o.floor) (hdone : o'.done = o.done)
    (hnext : o'.next = o.next) : Placed recorded o' := by
  have hqueued : ∀ n, Queued recorded o'.events n ↔ Queued recorded o.events n := fun n => by
    simp [Queued, hevents, (hassigned n).symm]
  have hover' : ∀ n, Over o'.events n ↔ Over o.events n := fun n => hevents ▸ hover n
  refine ⟨hwithin, ?_, ?_, ?_, ?_, ?_, ?_, ?_, ?_, ?_, ?_⟩ <;>
    simp only [hpending, hfloor, hdone, hnext, hqueued, hover']
  · exact h.floor
  · exact h.ascending
  · exact h.behind
  · exact h.queued
  · exact h.below
  · exact h.held
  · exact h.known
  · exact h.done
  · exact h.overDone
  · intro n hn
    rw [hevents, List.mem_cons] at hn
    exact h.granted n (hn.resolve_left (hgranted n).symm)

/-- An answer keeps the invariant. -/
theorem Inv.answered (h : Inv recorded highest o) :
    Inv recorded highest (o.happens (.answered seq)) where
  placed := h.placed.other rfl (by simp) (by simp) (fun _ => over_cons_of (by simp)) rfl
    h.placed.within rfl rfl rfl
  waiters := h.waiters.other rfl rfl rfl rfl (by simp [happens]) (by simp [happens])
    fun _ => Or.imp_right (List.mem_cons_of_mem _)
  settling := h.settling
  shut := h.shut
  live := h.live
  sound := ⟨trivial, h.sound⟩

/-- A legal promise keeps the invariant. -/
theorem Inv.promise (h : Inv recorded highest o) (hlegal : (Call.wait seq).Legal recorded o) :
    Inv recorded highest (o.promise seq) where
  placed := h.placed.other rfl (by simp) (by simp) (fun _ => over_cons_of (by simp)) rfl
    h.placed.within rfl rfl rfl
  waiters := h.waiters.promise hlegal.1 hlegal.2.1 hlegal.2.2.2
  settling := h.settling
  shut := h.shut
  live := h.live
  sound := ⟨trivial, h.sound⟩

/-- It is the number's turn when it is waited for. -/
theorem Inv.turn (h : Inv recorded highest o) (hlegal : (Call.wait seq).Legal recorded o)
    (hhead : o.pending.head? = some seq) (hdone : seq ∉ o.done) (hsettling : o.settling = false) :
    Inv recorded highest (o.happens (.granted seq)) where
  placed := h.placed.grant hhead rfl rfl h.placed.within rfl rfl rfl
  waiters := by
    have hne : ∀ n, .waits n ∈ o.events → n ≠ seq := by
      rintro n hn rfl
      exact hlegal.2.1 hn
    refine ⟨?_, h.waiters.apart, ?_, ?_, h.waiters.woken, h.waiters.count⟩
    · intro n waiter hwaiter
      obtain ⟨hplace, hwoken, hwaits, hgranted⟩ := h.waiters.promised n waiter hwaiter
      refine ⟨hplace, hwoken, List.mem_cons_of_mem _ hwaits, ?_⟩
      rw [happens, List.mem_cons, Event.granted.injEq, not_or]
      exact ⟨hne n hwaits, hgranted⟩
    · intro n hwaits hgranted
      simp only [happens, List.mem_cons, reduceCtorEq, false_or, not_or] at hwaits hgranted
      exact h.waiters.waits n hwaits hgranted.2
    · intro n hn
      have hn := h.waiters.queued n ((List.mem_cons.mp hn).resolve_left (by simp))
      exact hn.imp_right (List.mem_cons_of_mem _)
  settling := h.settling
  shut := h.shut
  live := h.live
  sound := ⟨h.placed.grantable hhead hdone hlegal.2.2.2 (h.settling ▸ hsettling), h.sound⟩

/-- `advance` changes the queue, its head and what is done, and nothing else. -/
theorem passDone_eq : ∀ (queued : List ℕ) (o : DeliveryOrder), ∃ head floor done,
    passDone queued o = { o with head := head, floor := floor, done := done }
  | [], o => ⟨o.head, o.floor, o.done, rfl⟩
  | seq :: rest, o => by
    rw [passDone]
    split
    · exact passDone_eq rest (o.pass seq)
    · exact ⟨o.head, o.floor, o.done, rfl⟩

/-- Advancing changes only the queue, its head, the floor and what is done. -/
theorem advance_eq (compactAt : ℕ) (o : DeliveryOrder) : ∃ queue head floor done,
    o.advance compactAt =
      { o with queue := queue, head := head, floor := floor, done := done } := by
  obtain ⟨head, floor, done, heq⟩ := passDone_eq o.pending o
  rw [advance, heq, compact]
  split
  · exact ⟨_, _, _, _, rfl⟩
  · exact ⟨_, _, _, _, rfl⟩

/-- A legal wait keeps the invariant. -/
theorem Inv.wait (h : Inv recorded highest o) (hlegal : (Call.wait seq).Legal recorded o) :
    Inv recorded highest (o.wait compactAt seq) := by
  have hadvance := (advance_smalls compactAt o).inv h
  have hlegal' : (Call.wait seq).Legal recorded (o.advance compactAt) := by
    obtain ⟨_, _, _, _, heq⟩ := advance_eq compactAt o
    rw [heq]
    exact hlegal
  rw [DeliveryOrder.wait]
  split
  case isTrue => exact h.answered
  case isFalse =>
    dsimp only
    split
    case isTrue hturn => exact hadvance.turn hlegal' hturn.1 (advance_head hturn.1) hturn.2
    case isFalse => exact hadvance.promise hlegal'

/-- The holder of a number of the queue is done with it. -/
theorem Inv.ended (h : Inv recorded highest o) (hseq : Queued recorded o.events seq)
    (hends : e = .abandoned seq ∨ ∃ owes, e = .released seq owes)
    (hevents : o'.events = e :: o.events) (hpending : o'.pending = o.pending)
    (hwithin : o'.head ≤ o'.queue.length) (hfloor : o'.floor = o.floor)
    (hdone : o'.done = insert seq o.done) (hnext : o'.next = o.next)
    (hwaiting : o'.waiting = o.waiting) (hpromises : o'.promises = o.promises)
    (hwoken : o'.woken = o.woken) (hcount : o'.waitingCount = o.waitingCount)
    (hsettling : o'.settling = turnDue (e :: o.events)) (hopen : o'.isOpen = o.isOpen)
    (hlive : o'.firstLive = o.firstLive) : Inv recorded highest o' where
  placed := by
    refine h.placed.end hseq hevents hpending hwithin hfloor hdone hnext (fun n => ?_) ?_ ?_ <;>
      rcases hends with rfl | ⟨_ | _, rfl⟩ <;> simp [Over, Ended] <;> tauto
  waiters := by
    refine h.waiters.other hwaiting hpromises hwoken hcount ?_ ?_ fun n hn => ?_
    · rcases hends with rfl | ⟨_, rfl⟩ <;> simp [hevents]
    · rcases hends with rfl | ⟨_, rfl⟩ <;> simp [hevents]
    · exact hn.imp_right fun hn => hevents ▸ List.mem_cons_of_mem _ hn
  settling := hevents ▸ hsettling
  shut := hopen.trans h.shut
  live := hlive.trans h.live
  sound := by
    rw [hevents]
    rcases hends with rfl | ⟨_, rfl⟩ <;> exact ⟨trivial, h.sound⟩

/-- Releasing a queued number keeps the invariant. -/
theorem Inv.release (h : Inv recorded highest o) (hseq : Queued recorded o.events seq)
    (settle : Bool) : Inv recorded highest (o.release compactAt seq settle) := by
  rw [DeliveryOrder.release]
  split
  case isTrue howes =>
    replace howes : (settle && o.turn) = true := howes
    exact h.ended hseq (.inr ⟨_, rfl⟩) rfl rfl h.placed.within rfl rfl rfl rfl rfl rfl rfl
      (by rw [howes]; rfl) rfl rfl
  case isFalse howes =>
    replace howes : (settle && o.turn) = false := (Bool.not_eq_true _).mp howes
    refine (wake_smalls compactAt _).inv ?_
    exact h.ended hseq (.inr ⟨_, rfl⟩) rfl rfl h.placed.within rfl rfl rfl rfl rfl rfl rfl
      (by rw [howes]; exact h.settling) rfl rfl

/-- Abandoning a queued number keeps the invariant. -/
theorem Inv.abandon (h : Inv recorded highest o) (hseq : Queued recorded o.events seq) :
    Inv recorded highest (o.abandon compactAt seq) :=
  (wake_smalls compactAt _).inv (h.ended hseq (.inl rfl) rfl rfl h.placed.within rfl rfl rfl rfl rfl
    rfl rfl h.settling rfl rfl)

/-- The end of a turn keeps the invariant. -/
theorem Inv.settled (h : Inv recorded highest o) : Inv recorded highest (o.settled compactAt) := by
  have hturned : Inv recorded highest
      (({ o with settling := false, owed := o.owed - 1 } : DeliveryOrder).happens .turned) :=
    { placed := h.placed.other rfl (by simp) (by simp) (fun _ => over_cons_of (by simp)) rfl
        h.placed.within rfl rfl rfl
      waiters := h.waiters.other rfl rfl rfl rfl (by simp [happens]) (by simp [happens])
        fun _ => Or.imp_right (List.mem_cons_of_mem _)
      settling := rfl
      shut := h.shut
      live := h.live
      sound := ⟨trivial, h.sound⟩ }
  exact Small.notifyIdle.inv ((wake_smalls compactAt _).inv hturned)

/-- A beat keeps the invariant. -/
theorem Inv.beat (h : Inv recorded highest o) : Inv recorded highest (o.beat compactAt) := by
  rw [DeliveryOrder.beat]
  split
  · exact h.same rfl h.placed.within rfl rfl rfl rfl rfl rfl le_rfl rfl rfl rfl rfl
  · refine (wake_smalls compactAt _).inv ?_
    exact h.same rfl h.placed.within rfl rfl rfl rfl rfl rfl le_rfl rfl rfl rfl rfl

/-- Giving up on the head is a run of small steps. -/
theorem giveUpOnHead_smalls (compactAt : ℕ) (o : DeliveryOrder) :
    Smalls o (o.giveUpOnHead compactAt) := by
  have hadvance := advance_smalls compactAt o
  rw [giveUpOnHead]
  split
  case h_1 => exact hadvance
  case h_2 seq hhead =>
    split
    case isTrue => exact hadvance
    case isFalse hgives =>
      simp only [Bool.or_eq_true, decide_eq_true_eq, not_or, not_le, Bool.not_eq_true,
        Option.isSome_eq_false_iff, Option.isNone_iff_eq_none] at hgives
      exact (hadvance.tail (.giveUp _ hhead (advance_head hhead) hgives.1 hgives.2)).trans
        (wake_smalls compactAt _)

/-- A legal call keeps the invariant. -/
theorem Inv.step (h : Inv recorded highest o) {call : Call} (hlegal : call.Legal recorded o) :
    Inv recorded highest (o.step compactAt call) := by
  cases call with
  | assign => exact h.assign
  | reserve =>
    exact h.same rfl h.placed.within rfl rfl rfl rfl rfl rfl (Nat.le_succ _) rfl rfl rfl rfl
  | wait seq => exact h.wait hlegal
  | release seq settle => exact h.release hlegal.1 settle
  | abandon seq => exact h.abandon hlegal.1
  | beat => exact h.beat
  | giveUpOnHead => exact (giveUpOnHead_smalls compactAt o).inv h
  | settled => exact h.settled
  | useTurn => exact h.same rfl h.placed.within rfl rfl rfl rfl rfl rfl le_rfl rfl rfl rfl rfl
  | idle => exact h.same rfl h.placed.within rfl rfl rfl rfl rfl rfl le_rfl rfl rfl rfl rfl
  | «open» => exact hlegal.elim

/-- A legal run keeps the invariant. -/
theorem Inv.run (h : Inv recorded highest o) {calls : List Call}
    (hlegal : LegalRun recorded compactAt o calls) :
    Inv recorded highest (o.run compactAt calls) := by
  induction calls generalizing o with
  | nil => exact h
  | cons call calls ih => exact ih (h.step hlegal.1) hlegal.2

/-- The order a pass begins with, over what it recorded, has the invariant. -/
theorem inv_ofRecorded (hascending : recorded.Pairwise (· < ·))
    (hhighest : ∀ n ∈ recorded, n ≤ highest) :
    Inv recorded highest (ofRecorded recorded highest) where
  placed := by
    refine ⟨Nat.zero_le _, Nat.zero_le _, hascending, fun _ _ => Nat.zero_le _, fun _ => .inl,
      fun n hn => ?_, ?_, ?_, ?_, ?_, ?_⟩
    · exact Nat.lt_succ_of_le (hhighest n (hn.resolve_right (by simp [ofRecorded])))
    all_goals simp [Queued, Over, Ended, ofRecorded, pending]
  waiters := by
    refine ⟨?_, ?_, ?_, ?_, ?_, ?_⟩ <;> simp [ofRecorded]
  settling := rfl
  shut := rfl
  live := rfl
  sound := trivial

end Durablerun.Sdk.DeliveryOrder
