import Durablerun.Sdk.DeliveryOrderInvariant

/-!
# The order of delivered results

Numbers are granted in ascending order, and every lower number is over before; what is given up was
recorded by an earlier pass and nobody waits for it; the head's waiter is never left waiting; and
dropping what was handed over changes nothing of it.

Reference: `packages/sdk/src/delivery-order.ts`.
-/

namespace Durablerun.Sdk.DeliveryOrder

variable {recorded : List ℕ} {events : List Event} {firstLive highest compactAt compactAt' : ℕ}
  {o o' : DeliveryOrder} {m n seq : ℕ} {rest : List ℕ} {calls : List Call}

/-! ## No wake-up is lost -/

/-- Unless a turn is owed, the head's number is not done, and no waiter of it is left. -/
def Cleared (o : DeliveryOrder) : Prop :=
  o.settling = true ∨ ∀ n, o.pending.head? = some n → n ∉ o.done ∧ o.waiting n = none

/-- Unless a turn is owed, the head's number is not done, no waiter of it is left, and a call that
waited for it was granted its turn. -/
def Served (o : DeliveryOrder) : Prop :=
  o.settling = true ∨ ∀ n, o.pending.head? = some n → n ∉ o.done ∧ o.waiting n = none ∧
    (.waits n ∈ o.events → .granted n ∈ o.events)

/-- Telling that the order is idle leaves it cleared. -/
theorem Cleared.notifyIdle (h : Cleared o) : Cleared o.notifyIdle := by
  unfold DeliveryOrder.notifyIdle
  split
  · exact h
  · exact h

/-- Passing over what is done leaves no more pending. -/
theorem passDone_length : ∀ (queued : List ℕ) (o : DeliveryOrder), o.pending = queued →
    (passDone queued o).pending.length ≤ queued.length
  | [], o, h => (congrArg List.length h).le
  | seq :: rest, o, h => by
    rw [passDone]
    split
    · exact (passDone_length rest (o.pass seq) (pending_pass h)).trans (Nat.le_succ _)
    · exact (congrArg List.length h).le

/-- Advancing leaves no more pending. -/
theorem advance_length : (o.advance compactAt).pending.length ≤ o.pending.length := by
  rw [advance, pending_compact]
  exact passDone_length o.pending o rfl

/-- The head moves past a number that is given up. -/
theorem advance_giveUp_length (hhead : o.pending.head? = some seq) :
    ((o.giveUp seq).advance compactAt).pending.length < o.pending.length := by
  obtain ⟨rest, hrest⟩ := List.head?_eq_some_iff.mp hhead
  have hpending : (o.giveUp seq).pending = seq :: rest := hrest
  have hdone : seq ∈ (o.giveUp seq).done := Finset.mem_insert_self seq o.done
  rw [advance, pending_compact, hpending, passDone, if_pos hdone, hrest, List.length_cons]
  exact Nat.lt_succ_of_le (passDone_length rest _ (pending_pass hpending))

/-- A grant leaves what is pending and done, and one waiter less. -/
theorem grant_fields (o : DeliveryOrder) (seq : ℕ) (waiter : Waiter) :
    (o.grant seq waiter).pending = o.pending ∧ (o.grant seq waiter).done = o.done ∧
      (o.grant seq waiter).waiting = Function.update o.waiting seq none := by
  unfold grant resolve
  split <;> exact ⟨rfl, rfl, rfl⟩

/-- A wake with enough rounds leaves the order cleared. -/
theorem wakeLoop_cleared : ∀ (rounds : ℕ) (o : DeliveryOrder),
    (o.waitingCount = 0 → ∀ n, o.waiting n = none) →
    (o.advance compactAt).pending.length < rounds → Cleared (o.wakeLoop compactAt rounds)
  | 0, _, _, hrounds => absurd hrounds (Nat.not_lt_zero _)
  | rounds + 1, o, hnone, hrounds => by
    have hdone : ∀ n, (o.advance compactAt).pending.head? = some n →
        n ∉ (o.advance compactAt).done := fun n => advance_head
    have hnone' : (o.advance compactAt).waitingCount = 0 →
        ∀ n, (o.advance compactAt).waiting n = none := by
      obtain ⟨_, _, _, _, heq⟩ := advance_eq compactAt o
      rw [heq]
      exact hnone
    rw [wakeLoop]
    generalize o.advance compactAt = o₁ at hdone hnone' hrounds
    split
    case isTrue hsettling => exact .inl hsettling
    case isFalse =>
      split
      case isTrue hcount => exact Cleared.notifyIdle (.inr fun n hn => ⟨hdone n hn, hnone' hcount n⟩)
      case isFalse =>
        split
        case h_1 hhead => exact .inr fun n hn => absurd (hhead.symm.trans hn) (by simp)
        case h_2 seq hhead =>
          have hcleared : o₁.waiting seq = none → Cleared o₁ := by
            refine fun hwaiting => .inr fun n hn => ⟨hdone n hn, ?_⟩
            rw [hhead, Option.some_inj] at hn
            exact hn ▸ hwaiting
          split
          case h_1 waiter hwaiting =>
            refine Cleared.notifyIdle (.inr fun n hn => ?_)
            obtain ⟨hpending, hdone', hwaiting'⟩ := grant_fields o₁ seq waiter
            rw [hpending] at hn
            rw [hdone', hwaiting']
            refine ⟨hdone n hn, ?_⟩
            rw [hhead, Option.some_inj] at hn
            rw [hn, Function.update_self]
          case h_2 hwaiting =>
            split
            case isTrue => exact hcleared hwaiting
            case isFalse =>
              exact wakeLoop_cleared rounds (o₁.giveUp seq) hnone'
                ((advance_giveUp_length hhead).trans_le (Nat.le_of_lt_succ hrounds))

/-- A wake leaves the order cleared. -/
theorem wake_cleared (h : o.waitingCount = 0 → ∀ n, o.waiting n = none) :
    Cleared (o.wake compactAt) :=
  wakeLoop_cleared _ o h (Nat.lt_succ_of_le advance_length)

/-- A cleared order has nothing to move past. -/
theorem Cleared.advance (h : Cleared o) (compactAt : ℕ) : Cleared (o.advance compactAt) := by
  rcases h with hsettling | h
  · obtain ⟨_, _, _, _, heq⟩ := advance_eq compactAt o
    exact .inl (heq ▸ hsettling)
  · have hpass : passDone o.pending o = o := by
      rcases hpending : o.pending with _ | ⟨seq, rest⟩
      · rfl
      · rw [passDone, if_neg (h seq (by rw [hpending, List.head?_cons])).1]
    rw [DeliveryOrder.advance, hpass]
    refine .inr fun n hn => ?_
    rw [pending_compact] at hn
    rw [compact_done]
    refine ⟨(h n hn).1, ?_⟩
    unfold DeliveryOrder.compact
    split <;> exact (h n hn).2

/-- A wait leaves the order cleared. -/
theorem Cleared.wait (h : Cleared o) : Cleared (o.wait compactAt seq) := by
  rw [DeliveryOrder.wait]
  split
  case isTrue => exact h
  case isFalse =>
    have hadvance := h.advance compactAt
    generalize o.advance compactAt = o₁ at hadvance
    dsimp only
    split
    case isTrue => exact hadvance
    case isFalse hturn =>
      rcases hadvance with hsettling | hadvance
      · exact .inl hsettling
      · refine (Bool.eq_false_or_eq_true o₁.settling).imp id fun hsettling n hn => ?_
        refine ⟨(hadvance n hn).1, ?_⟩
        have hne : n ≠ seq := by
          rintro rfl
          exact hturn ⟨hn, hsettling⟩
        exact (Function.update_of_ne hne _ _).trans (hadvance n hn).2

/-- Assigning the next number leaves the order cleared. -/
theorem Cleared.assign (h : Cleared o) (hinv : Inv recorded highest o) : Cleared o.assign := by
  refine h.imp id fun h n hn => ?_
  have hpending : o.assign.pending = o.pending ++ [o.next] :=
    List.drop_append_of_le_length hinv.placed.within
  rw [hpending, List.head?_append] at hn
  rcases hhead : o.pending.head? with _ | seq
  · rw [hhead, Option.none_or, List.head?_cons, Option.some_inj] at hn
    -- The queue was empty, so the new number is the head: nobody has waited for it or ended it.
    have hunqueued : ¬ Queued recorded o.events n := fun hq =>
      absurd (hn ▸ hinv.placed.below n hq) (lt_irrefl _)
    refine ⟨fun hdone => hunqueued (hinv.placed.known n (hinv.placed.done n hdone)), ?_⟩
    rw [Option.eq_none_iff_forall_ne_some]
    intro waiter hwaiter
    exact hunqueued (hinv.waiters.queued n (hinv.waiters.promised n waiter hwaiter).2.2.1)
  · rw [hhead, Option.some_or] at hn
    exact h n (hhead.trans hn)

/-- A legal call leaves the order cleared. -/
theorem Cleared.step (h : Cleared o) (hinv : Inv recorded highest o) {call : Call}
    (hlegal : call.Legal recorded o) : Cleared (o.step compactAt call) := by
  have hnone := hinv.waiters.none_waits
  cases call with
  | assign => exact h.assign hinv
  | reserve => exact h
  | wait seq => exact h.wait
  | release seq settle =>
    change Cleared (o.release compactAt seq settle)
    rw [release]
    split
    · exact .inl rfl
    · exact wake_cleared hnone
  | abandon seq => exact wake_cleared hnone
  | beat =>
    change Cleared (o.beat compactAt)
    rw [beat]
    split
    · exact h
    · exact wake_cleared hnone
  | giveUpOnHead =>
    have hadvance := h.advance compactAt
    change Cleared (o.giveUpOnHead compactAt)
    rw [giveUpOnHead]
    split
    · exact hadvance
    · split
      · exact hadvance
      · refine wake_cleared ?_
        obtain ⟨_, _, _, _, heq⟩ := advance_eq compactAt o
        rw [heq]
        exact hnone
  | settled =>
    refine Cleared.notifyIdle ?_
    exact wake_cleared hnone
  | useTurn => exact h
  | idle => exact h
  | «open» => exact hlegal.elim

/-- A legal run leaves the order cleared. -/
theorem Cleared.run (h : Cleared o) (hinv : Inv recorded highest o)
    (hlegal : LegalRun recorded compactAt o calls) : Cleared (o.run compactAt calls) := by
  induction calls generalizing o with
  | nil => exact h
  | cons call calls ih => exact ih (h.step hinv hlegal.1) (hinv.step hlegal.1) hlegal.2

/-- The order a pass begins with is cleared. -/
theorem cleared_ofRecorded : Cleared (ofRecorded recorded highest) :=
  .inr fun _ _ => ⟨Finset.notMem_empty _, rfl⟩

/-- A waiter leaves the map as its call is granted its turn. -/
theorem Cleared.served (h : Cleared o) (hinv : Inv recorded highest o) : Served o := by
  refine h.imp id fun h n hn => ⟨(h n hn).1, (h n hn).2, fun hwaits => ?_⟩
  by_contra hgranted
  exact hinv.waiters.waits n hwaits hgranted (h n hn).2

/-! ## Turns -/

/-- No result for which a turn is owed is released while another's turn is owed. -/
def Spaced : List Event → Prop
  | [] => True
  | .released _ true :: older => turnsOwed older = 0 ∧ Spaced older
  | _ :: older => Spaced older

/-- A spaced log owes one turn at most. -/
theorem turnsOwed_of_spaced : ∀ events : List Event, Spaced events →
    turnsOwed events = if turnDue events then 1 else 0
  | [], _ => rfl
  | .released _ true :: _, h => congrArg (· + 1) h.1
  | .turned :: older, h => by
    have ih := turnsOwed_of_spaced older h
    rw [turnsOwed, ih, turnDue]
    split <;> rfl
  | .released _ false :: older, h => turnsOwed_of_spaced older h
  | .assigned _ :: older, h => turnsOwed_of_spaced older h
  | .waits _ :: older, h => turnsOwed_of_spaced older h
  | .answered _ :: older, h => turnsOwed_of_spaced older h
  | .granted _ :: older, h => turnsOwed_of_spaced older h
  | .letGo _ :: older, h => turnsOwed_of_spaced older h
  | .abandoned _ :: older, h => turnsOwed_of_spaced older h
  | .gaveUp _ :: older, h => turnsOwed_of_spaced older h

/-! ## Numbers that were granted and are not over -/

/-- A call was let go with its number's result, and has not released or abandoned it. -/
def Outstanding (events : List Event) (n : ℕ) : Prop :=
  .granted n ∈ events ∧ ¬ Ended events n

instance (events : List Event) (n : ℕ) : Decidable (Outstanding events n) :=
  inferInstanceAs (Decidable (_ ∧ _))

/-- What leaves an outstanding number alone: calls that wake nobody, and the ones of its holder. -/
def Call.Leaves (n : ℕ) : Call → Prop
  | .assign | .reserve | .wait _ | .useTurn | .idle => True
  | .release m _ | .abandon m => m = n
  | .beat | .giveUpOnHead | .settled | .open => False

/-- While a recorded number is outstanding, every call leaves it alone. -/
def CalmRun (compactAt : ℕ) : DeliveryOrder → List Call → Prop
  | _, [] => True
  | o, call :: calls =>
    (∀ n < o.firstLive, Outstanding o.events n → call.Leaves n) ∧
      CalmRun compactAt (o.step compactAt call) calls

/-- No number was given up while it was outstanding. -/
def Spared : List Event → Prop
  | [] => True
  | e :: older => (∀ n, e = .gaveUp n → ¬ Outstanding older n) ∧ Spared older

/-- A number that was given up was not outstanding then. -/
theorem Spared.spared : ∀ (newer : List Event) {older : List Event},
    Spared (newer ++ .gaveUp n :: older) → ¬ Outstanding older n
  | [], _, h => h.1 n rfl
  | _ :: newer, _, h => Spared.spared newer h.2

/-- A wake gives up nothing outstanding where nothing below the first live number is. -/
theorem wakeLoop_spared : ∀ (rounds : ℕ) (o : DeliveryOrder),
    (∀ n < o.firstLive, ¬ Outstanding o.events n) → Spared o.events →
    Spared (o.wakeLoop compactAt rounds).events
  | 0, _, _, h => h
  | rounds + 1, o, hnone, h => by
    obtain ⟨_, _, _, _, heq⟩ := advance_eq compactAt o
    have hnone' : ∀ n < (o.advance compactAt).firstLive,
        ¬ Outstanding (o.advance compactAt).events n := heq ▸ hnone
    have h' : Spared (o.advance compactAt).events := heq ▸ h
    rw [wakeLoop]
    generalize o.advance compactAt = o₁ at hnone' h'
    have hidle : ∀ o : DeliveryOrder, Spared o.events → Spared o.notifyIdle.events := by
      intro o h
      unfold notifyIdle
      split <;> exact h
    split
    case isTrue => exact h'
    case isFalse =>
      split
      case isTrue => exact hidle _ h'
      case isFalse =>
        split
        case h_1 => exact h'
        case h_2 seq hhead =>
          split
          case h_1 waiter hwaiting =>
            refine hidle _ ?_
            unfold grant resolve
            split
            · exact h'
            · exact ⟨by simp, h'⟩
          case h_2 hwaiting =>
            split
            case isTrue => exact h'
            case isFalse hgives =>
              simp only [Bool.or_eq_true, decide_eq_true_eq, not_or, not_le] at hgives
              refine wakeLoop_spared rounds (o₁.giveUp seq) (fun n hn => ?_) ⟨?_, h'⟩
              · have hn := hnone' n hn
                simpa [Outstanding, Ended, giveUp] using hn
              · rintro n hn
                rw [Event.gaveUp.injEq] at hn
                exact hn ▸ hnone' seq hgives.2

/-- No recorded number is outstanding once the only one was released or abandoned. -/
theorem none_outstanding {call : Call} {o' : DeliveryOrder} {e : Event}
    (hcalm : ∀ n < o.firstLive, Outstanding o.events n → call.Leaves n)
    (hseq : ∀ n, call.Leaves n → seq = n) (he : ∀ n, e ≠ .granted n)
    (hevents : o'.events = e :: o.events) (hends : Ended (e :: o.events) seq)
    (hlive : o'.firstLive = o.firstLive) : ∀ n < o'.firstLive, ¬ Outstanding o'.events n := by
  rintro n hn ⟨hgranted, hended⟩
  rw [hevents] at hgranted hended
  rw [hlive] at hn
  have hgranted := (List.mem_cons.mp hgranted).resolve_left (he n).symm
  have hended' : ¬ Ended o.events n := fun hold => hended <|
    hold.imp (List.mem_cons_of_mem _) (Or.imp (List.mem_cons_of_mem _) (List.mem_cons_of_mem _))
  exact hended (hseq n (hcalm n hn ⟨hgranted, hended'⟩) ▸ hends)

/-- A call that leaves alone what is outstanding gives up nothing outstanding. -/
theorem Spared.step {call : Call} (h : Spared o.events)
    (hcalm : ∀ n < o.firstLive, Outstanding o.events n → call.Leaves n)
    (hopen : call ≠ .open) : Spared (o.step compactAt call).events := by
  cases call with
  | assign => exact ⟨by simp, h⟩
  | reserve => exact h
  | wait seq =>
    change Spared (o.wait compactAt seq).events
    rw [wait]
    split
    · exact ⟨by simp, h⟩
    · obtain ⟨_, _, _, _, heq⟩ := advance_eq compactAt o
      have h' : Spared (o.advance compactAt).events := heq ▸ h
      dsimp only
      split
      · exact ⟨by simp, h'⟩
      · exact ⟨by simp, h'⟩
  | release seq settle =>
    have hspared : Spared (.released seq (settle && o.turn) :: o.events) := ⟨by simp, h⟩
    change Spared (o.release compactAt seq settle).events
    rw [release]
    split
    · exact hspared
    · refine wakeLoop_spared _ _ ?_ hspared
      refine none_outstanding hcalm (fun _ => id) (by simp) rfl ?_ rfl
      cases hs : settle && o.turn <;> simp [Ended]
  | abandon seq =>
    refine wakeLoop_spared _ _ ?_ ⟨by simp, h⟩
    exact none_outstanding hcalm (fun _ => id) (by simp) rfl (.inr (.inr List.mem_cons_self)) rfl
  | beat =>
    change Spared (o.beat compactAt).events
    rw [beat]
    split
    · exact h
    -- A beat is calm only where nothing below the first live number is outstanding.
    · exact wakeLoop_spared _ _ (fun n hn ho => hcalm n hn ho) h
  | giveUpOnHead =>
    obtain ⟨_, _, _, _, heq⟩ := advance_eq compactAt o
    have hcalm' : ∀ n < (o.advance compactAt).firstLive,
        ¬ Outstanding (o.advance compactAt).events n := heq ▸ fun n hn ho => hcalm n hn ho
    have h' : Spared (o.advance compactAt).events := heq ▸ h
    change Spared (o.giveUpOnHead compactAt).events
    rw [giveUpOnHead]
    generalize o.advance compactAt = o₁ at hcalm' h'
    split
    · exact h'
    · split
      case isTrue => exact h'
      case isFalse seq hhead hgives =>
        simp only [Bool.or_eq_true, decide_eq_true_eq, not_or, not_le] at hgives
        refine wakeLoop_spared _ (o₁.giveUp seq) (fun n hn => ?_) ⟨?_, h'⟩
        · have hn := hcalm' n hn
          simpa [Outstanding, Ended, giveUp] using hn
        · rintro n hn
          rw [Event.gaveUp.injEq] at hn
          exact hn ▸ hcalm' seq hgives.1
  | settled =>
    have hnone : ∀ n < o.firstLive, ¬ Outstanding (.turned :: o.events) n := by
      -- What is outstanding after a turn was outstanding before it.
      rintro n hn ⟨hgranted, hended⟩
      refine hcalm n hn ⟨(List.mem_cons.mp hgranted).resolve_left (by simp), fun hold => hended ?_⟩
      exact hold.imp (List.mem_cons_of_mem _)
        (Or.imp (List.mem_cons_of_mem _) (List.mem_cons_of_mem _))
    change Spared (o.settled compactAt).events
    unfold settled notifyIdle
    split
    all_goals exact wakeLoop_spared _ _ hnone ⟨by simp, h⟩
  | useTurn => exact h
  | idle => exact h
  | «open» => exact absurd rfl hopen

/-- A calm run gives up nothing outstanding. -/
theorem Spared.run (h : Spared o.events) (hlegal : LegalRun recorded compactAt o calls)
    (hcalm : CalmRun compactAt o calls) : Spared (o.run compactAt calls).events := by
  induction calls generalizing o with
  | nil => exact h
  | cons call calls ih =>
    refine ih (h.step hcalm.1 ?_) hlegal.2 hcalm.2
    rintro rfl
    exact hlegal.1

/-- What is granted is over only when its holder says so. -/
theorem ended_of_over (hsound : SoundLog recorded firstLive events) (hspared : Spared events)
    (hgranted : .granted n ∈ events) (hover : Over events n) : Ended events n := by
  refine hover.elim id fun hgaveUp => ?_
  induction events with
  | nil => exact absurd hgranted (by simp)
  | cons e older ih =>
    have hcons : Ended older n → Ended (e :: older) n := fun hold =>
      hold.imp (List.mem_cons_of_mem _) (Or.imp (List.mem_cons_of_mem _) (List.mem_cons_of_mem _))
    rcases List.mem_cons.mp hgranted with rfl | hgranted'
    · exact absurd (.inr ((List.mem_cons.mp hgaveUp).resolve_left (by simp))) hsound.1.2.2.1
    · rcases List.mem_cons.mp hgaveUp with rfl | hgaveUp'
      · have hnot := hspared.1 n rfl
        rw [Outstanding, not_and_not_right] at hnot
        exact hcons (hnot hgranted')
      · exact hcons (ih hsound.2 hspared.2 hgranted' (.inr hgaveUp') hgaveUp')

/-- At most one number is outstanding. -/
theorem Inv.outstanding_unique (h : Inv recorded highest o) (hspared : Spared o.events)
    (hm : Outstanding o.events m) (hn : Outstanding o.events n) : m = n := by
  have hhead : ∀ n, Outstanding o.events n → o.pending.head? = some n := by
    rintro n ⟨hgranted, hended⟩
    refine (h.placed.granted n hgranted).2.1.resolve_left fun hover => ?_
    exact hended (ended_of_over h.sound hspared hgranted hover)
  exact Option.some_inj.mp ((hhead m hm).symm.trans (hhead n hn))

/-! ## Compaction -/

/-- Two orders that differ only in what they keep behind the head. -/
def Alike (o o' : DeliveryOrder) : Prop :=
  ∃ queue head, o' = { o with queue := queue, head := head } ∧ head ≤ queue.length ∧
    o.head ≤ o.queue.length ∧ queue.drop head = o.pending

/-- An order is like itself. -/
theorem alike_refl (h : o.head ≤ o.queue.length) : Alike o o :=
  ⟨o.queue, o.head, rfl, h, h, rfl⟩

/-- While a number is pending the head is within the queue. -/
theorem lt_of_pending (h : o.pending = seq :: rest) : o.head < o.queue.length := by
  have hlength := congrArg List.length h
  rw [pending, List.length_drop, List.length_cons] at hlength
  omega

/-- Passing over what is done keeps two orders alike. -/
theorem passDone_alike : ∀ (queued : List ℕ) (o o' : DeliveryOrder), o.pending = queued →
    Alike o o' → Alike (passDone queued o) (passDone queued o')
  | [], _, _, _, h => h
  | seq :: rest, o, _, hpending, ⟨queue, head, rfl, hwithin', hwithin, hqueue⟩ => by
    rw [passDone, passDone]
    split
    case isTrue hdone =>
      refine passDone_alike rest _ _ (pending_pass hpending) ⟨queue, head + 1, rfl, ?_, ?_, ?_⟩
      · exact lt_of_pending (o := { o with queue := queue, head := head }) (hqueue.trans hpending)
      · exact lt_of_pending hpending
      · rw [pending_pass hpending, ← List.tail_drop, hqueue, hpending, List.tail_cons]
    case isFalse => exact ⟨queue, head, rfl, hwithin', hwithin, hqueue⟩

/-- Compacting keeps two orders alike, whatever the bound. -/
theorem compact_alike : Alike o o' → Alike (o.compact compactAt) (o'.compact compactAt') := by
  rintro ⟨queue, head, rfl, hwithin', hwithin, hqueue⟩
  have hzero : ∀ queue : List ℕ, 0 ≤ queue.length := fun _ => Nat.zero_le _
  unfold compact
  split <;> split
  · exact ⟨_, 0, rfl, hzero _, hzero _, hqueue⟩
  · exact ⟨queue, head, rfl, hwithin', hzero _, hqueue⟩
  · exact ⟨_, 0, rfl, hzero _, hwithin, hqueue⟩
  · exact ⟨queue, head, rfl, hwithin', hwithin, hqueue⟩

/-- Orders that are alike have the same pending. -/
theorem Alike.pending_eq (h : Alike o o') : o'.pending = o.pending := by
  obtain ⟨queue, head, rfl, -, -, hqueue⟩ := h
  exact hqueue

/-- Advancing keeps two orders alike, whatever the bounds. -/
theorem Alike.advance (h : Alike o o') (compactAt compactAt' : ℕ) :
    Alike (o.advance compactAt) (o'.advance compactAt') := by
  rw [DeliveryOrder.advance, DeliveryOrder.advance, h.pending_eq]
  exact compact_alike (passDone_alike _ _ _ rfl h)

/-- What does not look at the queue takes alike orders to alike orders. -/
theorem Alike.map (f : DeliveryOrder → DeliveryOrder)
    (hf : ∀ o queue head, f { o with queue := queue, head := head } =
      { f o with queue := queue, head := head })
    (h : Alike o o') : Alike (f o) (f o') := by
  obtain ⟨queue, head, rfl, hwithin', hwithin, hqueue⟩ := h
  have hself := hf o o.queue o.head
  refine ⟨queue, head, hf o queue head, hwithin', ?_, ?_⟩ <;>
    rw [show f o = { f o with queue := o.queue, head := o.head } from hself]
  · exact hwithin
  · exact hqueue

/-- Telling that the order is idle does not depend on the queue. -/
theorem notifyIdle_map (o : DeliveryOrder) (queue : List ℕ) (head : ℕ) :
    notifyIdle { o with queue := queue, head := head } =
      { o.notifyIdle with queue := queue, head := head } := by
  unfold notifyIdle busy stalled
  split <;> rfl

/-- A grant does not depend on the queue. -/
theorem grant_map (seq : ℕ) (waiter : Waiter) (o : DeliveryOrder) (queue : List ℕ) (head : ℕ) :
    grant { o with queue := queue, head := head } seq waiter =
      { o.grant seq waiter with queue := queue, head := head } := by
  unfold grant resolve
  dsimp only
  split <;> rfl

/-- The loop of a wake keeps two orders alike. -/
theorem wakeLoop_alike : ∀ (rounds : ℕ) (o o' : DeliveryOrder), Alike o o' →
    Alike (o.wakeLoop compactAt rounds) (o'.wakeLoop compactAt' rounds)
  | 0, _, _, h => h
  | rounds + 1, o, o', h => by
    have hadvance := h.advance compactAt compactAt'
    rw [wakeLoop, wakeLoop]
    generalize o.advance compactAt = o₁ at hadvance
    generalize o'.advance compactAt' = o₁' at hadvance
    have hpending := hadvance.pending_eq
    have halike := hadvance
    obtain ⟨queue, head, rfl, -, -, -⟩ := hadvance
    rw [hpending]
    dsimp only
    split
    case isTrue => exact halike
    case isFalse =>
      split
      case isTrue =>
        refine Alike.map notifyIdle notifyIdle_map ?_
        exact halike.map (fun o => { o with draining := false }) fun _ _ _ => rfl
      case isFalse =>
        split
        case h_1 => exact halike
        case h_2 seq hhead =>
          split
          case h_1 waiter hwaiting =>
            refine Alike.map notifyIdle notifyIdle_map ?_
            exact halike.map (fun o => o.grant seq waiter) (grant_map seq waiter)
          case h_2 hwaiting =>
            split
            case isTrue => exact halike
            case isFalse =>
              exact wakeLoop_alike rounds _ _ (halike.map (fun o => o.giveUp seq) fun _ _ _ => rfl)

/-- A wake keeps two orders alike. -/
theorem Alike.wake (h : Alike o o') : Alike (o.wake compactAt) (o'.wake compactAt') := by
  rw [DeliveryOrder.wake, DeliveryOrder.wake, h.pending_eq]
  exact wakeLoop_alike _ _ _ h

/-- An event keeps two orders alike. -/
theorem Alike.happens (h : Alike o o') (e : Event) : Alike (o.happens e) (o'.happens e) :=
  h.map (fun o => o.happens e) fun _ _ _ => rfl

/-- A wait keeps two orders alike. -/
theorem Alike.wait (h : Alike o o') (seq : ℕ) :
    Alike (o.wait compactAt seq) (o'.wait compactAt' seq) := by
  have hadvance := h.advance compactAt compactAt'
  rw [DeliveryOrder.wait, DeliveryOrder.wait]
  generalize o.advance compactAt = o₁ at hadvance
  generalize o'.advance compactAt' = o₁' at hadvance
  have hanswered : (o'.isOpen || o'.isDone seq) = (o.isOpen || o.isDone seq) := by
    obtain ⟨queue, head, rfl, -, -, -⟩ := h
    rfl
  have hsettling : o₁'.settling = o₁.settling := by
    obtain ⟨queue, head, rfl, -, -, -⟩ := hadvance
    rfl
  dsimp only
  rw [hanswered, hadvance.pending_eq, hsettling]
  split
  · exact h.happens (.answered seq)
  · split
    · exact hadvance.happens (.granted seq)
    · exact hadvance.map (fun o => o.promise seq) fun _ _ _ => rfl

/-- Giving up on the head keeps two orders alike. -/
theorem Alike.giveUpOnHead (h : Alike o o') :
    Alike (o.giveUpOnHead compactAt) (o'.giveUpOnHead compactAt') := by
  have hadvance := h.advance compactAt compactAt'
  rw [DeliveryOrder.giveUpOnHead, DeliveryOrder.giveUpOnHead]
  generalize o.advance compactAt = o₁ at hadvance
  generalize o'.advance compactAt' = o₁' at hadvance
  have hpending := hadvance.pending_eq
  have halike := hadvance
  obtain ⟨queue, head, rfl, -, -, -⟩ := hadvance
  dsimp only
  rw [hpending]
  split
  · exact halike
  · split
    · exact halike
    · refine Alike.wake ?_
      exact halike.map (fun o => o.giveUp _) fun _ _ _ => rfl

/-- A call other than the opening keeps two orders alike. -/
theorem Alike.step (h : Alike o o') {call : Call} (hopen : call ≠ .open) :
    Alike (o.step compactAt call) (o'.step compactAt' call) := by
  cases call with
  | assign =>
    -- Compaction drops what is behind the head; everything a call reads is in front of it.
    obtain ⟨queue, head, rfl, hwithin', hwithin, hqueue⟩ := h
    refine ⟨queue ++ [o.next], head, rfl, ?_, ?_, ?_⟩
    · exact hwithin'.trans (List.length_append ▸ Nat.le_add_right _ _)
    · change o.head ≤ (o.queue ++ [o.next]).length
      exact hwithin.trans (List.length_append ▸ Nat.le_add_right _ _)
    · rw [List.drop_append_of_le_length hwithin', hqueue]
      exact (List.drop_append_of_le_length hwithin).symm
  | reserve => exact h.map reserve fun _ _ _ => rfl
  | wait seq => exact h.wait seq
  | release seq settle =>
    change Alike (o.release compactAt seq settle) (o'.release compactAt' seq settle)
    have hreleased := h.map (fun o => { o with
      done := insert seq o.done
      progress := o.progress + 1
      events := .released seq (settle && o.turn) :: o.events }) fun _ _ _ => rfl
    have hturn : o'.turn = o.turn := by
      obtain ⟨queue, head, rfl, -, -, -⟩ := h
      rfl
    rw [release, release]
    by_cases howes : (settle && o.turn) = true
    · have howes' : (settle && o'.turn) = true := by rw [hturn, howes]
      rw [if_pos, if_pos]
      · exact hreleased.map (fun o => { o with settling := true, owed := o.owed + 1 })
          fun _ _ _ => rfl
      · exact howes'
      · exact howes
    · have howes' : ¬ (settle && o'.turn) = true := by rwa [hturn]
      rw [if_neg, if_neg]
      · exact hreleased.wake
      · exact howes'
      · exact howes
  | abandon seq =>
    exact (h.map (fun o => { o with
      done := insert seq o.done
      events := .abandoned seq :: o.events }) fun _ _ _ => rfl).wake
  | beat =>
    change Alike (o.beat compactAt) (o'.beat compactAt')
    have hbeat := h.map (fun o => { o with beatProgress := o.progress }) fun _ _ _ => rfl
    -- The test for a stuck head reads neither the queue nor the head's index.
    have hstuck : (o'.stalled && decide (o'.progress = o'.beatProgress)) =
        (o.stalled && decide (o.progress = o.beatProgress)) := by
      obtain ⟨queue, head, rfl, -, -, -⟩ := h
      rfl
    rw [beat, beat, hstuck]
    split
    · exact hbeat
    · exact (hbeat.map (fun o => { o with draining := true }) fun _ _ _ => rfl).wake
  | giveUpOnHead => exact h.giveUpOnHead
  | settled =>
    refine Alike.map notifyIdle notifyIdle_map (Alike.wake ?_)
    exact h.map (fun o => { o with
      settling := false
      owed := o.owed - 1
      events := .turned :: o.events }) fun _ _ _ => rfl
  | useTurn => exact h.map useTurn fun _ _ _ => rfl
  | idle => exact h.map idle fun _ _ _ => rfl
  | «open» => exact absurd rfl hopen

/-- A legal run keeps two orders alike. -/
theorem Alike.run (h : Alike o o') (hlegal : LegalRun recorded compactAt o calls) :
    Alike (o.run compactAt calls) (o'.run compactAt' calls) := by
  induction calls generalizing o o' with
  | nil => exact h
  | cons call calls ih =>
    refine ih (h.step ?_) hlegal.2
    rintro rfl
    exact hlegal.1

/-! ## The order of delivered results -/

/-- What a run's events say of the order its numbers were granted and given up in. -/
structure InOrder (recorded : List ℕ) (firstLive : ℕ) (events : List Event) : Prop where
  /-- Numbers are granted in ascending order, each once. -/
  ascending : ∀ newer older n, events = newer ++ .granted n :: older →
    ∀ m, .granted m ∈ older → m < n
  /-- Every lower number is over before. -/
  behind : ∀ newer older n, events = newer ++ .granted n :: older →
    ∀ m, Queued recorded older m → m < n → Over older m
  /-- A turn has passed since the last result one is owed for, -/
  turn : ∀ newer older n, events = newer ++ .granted n :: older → turnDue older = false
  /-- and no turn is owed at all where no two were at once. -/
  turns : ∀ newer older n, events = newer ++ .granted n :: older → Spaced older →
    turnsOwed older = 0
  /-- What is given up was recorded, -/
  recorded : ∀ newer older n, events = newer ++ .gaveUp n :: older → n < firstLive
  /-- and no call waits for it. -/
  unasked : ∀ newer older n, events = newer ++ .gaveUp n :: older → .waits n ∈ older →
    .granted n ∈ older

/-- What a sound log granted, it granted in order. -/
theorem SoundLog.inOrder (h : SoundLog recorded firstLive events) :
    InOrder recorded firstLive events := by
  refine ⟨?_, ?_, ?_, ?_, ?_, ?_⟩ <;> rintro newer older n rfl
  · exact (h.sound newer).1
  · exact (h.sound newer).2.1
  · exact (h.sound newer).2.2.2
  · intro hspaced
    rw [turnsOwed_of_spaced _ hspaced, (h.sound newer).2.2.2]
    rfl
  · exact (h.sound newer).1
  · exact (h.sound newer).2

/-- Where a recorded number is left alone while it is outstanding, it is not given up, and no two
numbers are outstanding at once. -/
structure OneAtATime (events : List Event) : Prop where
  kept : ∀ newer older n, events = newer ++ .gaveUp n :: older → ¬ Outstanding older n
  one : ∀ m n, Outstanding events m → Outstanding events n → m = n

/-- Results are granted in order, the head's waiter is never left waiting, one number is outstanding
at a time, and how much the queue keeps behind its head changes none of it. -/
theorem delivers_in_order (hascending : recorded.Pairwise (· < ·))
    (hhighest : ∀ n ∈ recorded, n ≤ highest) (calls : List Call)
    (hlegal : LegalRun recorded COMPACT_AT (ofRecorded recorded highest) calls) :
    InOrder recorded (highest + 1) ((ofRecorded recorded highest).run COMPACT_AT calls).events ∧
      Served ((ofRecorded recorded highest).run COMPACT_AT calls) ∧
      (CalmRun COMPACT_AT (ofRecorded recorded highest) calls →
        OneAtATime ((ofRecorded recorded highest).run COMPACT_AT calls).events) ∧
      ∀ compactAt, Alike ((ofRecorded recorded highest).run COMPACT_AT calls)
        ((ofRecorded recorded highest).run compactAt calls) := by
  have hstart := inv_ofRecorded hascending hhighest
  have hinv := hstart.run hlegal
  refine ⟨hinv.sound.inOrder, (cleared_ofRecorded.run hstart hlegal).served hinv, fun hcalm => ?_,
    fun compactAt => ?_⟩
  · have hspared : Spared ((ofRecorded recorded highest).run COMPACT_AT calls).events :=
      Spared.run trivial hlegal hcalm
    refine ⟨?_, fun m n => hinv.outstanding_unique hspared⟩
    intro newer older n hevents
    exact Spared.spared newer (hevents ▸ hspared)
  · exact (alike_refl hstart.placed.within).run hlegal

/-! ## Where calls are let go otherwise -/

instance (recorded : List ℕ) (o : DeliveryOrder) : ∀ call : Call, Decidable (call.Legal recorded o)
  | .wait _ => inferInstanceAs (Decidable (_ ∧ _ ∧ _ ∧ _))
  | .release _ _ | .abandon _ => inferInstanceAs (Decidable (_ ∧ _))
  | .settled => inferInstanceAs (Decidable (_ < _))
  | .open => inferInstanceAs (Decidable False)
  | .assign | .reserve | .beat | .giveUpOnHead | .useTurn | .idle =>
    inferInstanceAs (Decidable True)

instance legalRunDecidable (recorded : List ℕ) (compactAt : ℕ) :
    ∀ (calls : List Call) (o : DeliveryOrder), Decidable (LegalRun recorded compactAt o calls)
  | [], _ => inferInstanceAs (Decidable True)
  | call :: calls, o =>
    have := legalRunDecidable recorded compactAt calls (o.step compactAt call)
    inferInstanceAs (Decidable (_ ∧ _))

instance (recorded : List ℕ) (compactAt : ℕ) (calls : List Call) (o : DeliveryOrder) :
    Decidable (LegalRun recorded compactAt o calls) :=
  legalRunDecidable recorded compactAt calls o

/-- The numbers whose wait let the call go, in their turn or not, the last one first. -/
def letGo (events : List Event) : List ℕ :=
  events.filterMap fun e => match e with
    | .granted n | .answered n => some n
    | _ => none

/-- A call for a number that was given up is let go after a higher number's; a recorded number that
was granted is given up by a beat before its call releases it; and a turn that was taken for one
result lets the next one go while another's is owed. -/
theorem letGo_out_of_order :
    (¬ ∀ calls, LegalRun [1, 2, 3] COMPACT_AT (ofRecorded [1, 2, 3] 3) calls →
      (letGo ((ofRecorded [1, 2, 3] 3).run COMPACT_AT calls).events).Pairwise (· > ·)) ∧
    (¬ ∀ calls, LegalRun [1, 2, 3] COMPACT_AT (ofRecorded [1, 2, 3] 3) calls →
      ∀ m n, Outstanding ((ofRecorded [1, 2, 3] 3).run COMPACT_AT calls).events m →
        Outstanding ((ofRecorded [1, 2, 3] 3).run COMPACT_AT calls).events n → m = n) ∧
    (¬ ∀ calls, LegalRun [1, 2, 3] COMPACT_AT (ofRecorded [1, 2, 3] 3) calls →
      ∀ newer older n, ((ofRecorded [1, 2, 3] 3).run COMPACT_AT calls).events =
        newer ++ .granted n :: older → turnsOwed older = 0) := by
  refine ⟨fun h => ?_, fun h => ?_, fun h => ?_⟩
  · exact absurd (h [.wait 3, .beat, .wait 1] (by decide +kernel)) (by decide +kernel)
  · exact absurd (h [.wait 1, .wait 2, .beat] (by decide +kernel) 1 2 (by decide +kernel)
      (by decide +kernel)) (by decide)
  · exact absurd (h [.useTurn, .wait 2, .beat, .release 2 true, .wait 1, .release 1 true, .settled,
      .wait 3] (by decide +kernel) [] [.turned, .released 1 true, .answered 1, .released 2 true,
        .granted 2, .gaveUp 1, .waits 2] 3 (by decide +kernel)) (by decide)

/-- Two recorded results and one of this pass, asked for in the other order. -/
theorem delivers_in_order_three :
    InOrder [1, 2] 3 ((ofRecorded [1, 2] 2).run COMPACT_AT [.assign, .wait 3, .wait 2, .wait 1,
      .release 1 false, .release 2 false, .release 3 false]).events :=
  (@delivers_in_order [1, 2] 2 (by decide) (by decide)
    [.assign, .wait 3, .wait 2, .wait 1, .release 1 false, .release 2 false, .release 3 false]
    (by decide +kernel)).1

end Durablerun.Sdk.DeliveryOrder
