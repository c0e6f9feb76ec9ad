import Durablerun.Lib.JsString
import Mathlib.Logic.Relation

/-!
# A bounded pipeline of calls

`mapLimit` calls a worker function on the items of a list, some number at a time. Its loops share a
cursor and a latch for the first failure, and each runs alone up to its next `await`: the calls that
were started settle in any order, and every settlement lets one loop go on.

Reference: `packages/core/src/limits.ts`.
-/

namespace Durablerun

open Js

variable {T R E : Type}

/-! ## mapLimit -/

/-- A loop of the pipeline: not yet entered, awaiting a call, or returned. -/
inductive Worker where
  | unlaunched
  | awaiting (index : ℕ)
  | done
  deriving DecidableEq

/-- What the outside sees: a call of the worker function, and how a call settled, when its loop takes
note of it. -/
inductive CallEvent (T R E : Type) where
  | called (item : T)
  | resolved (index : ℕ) (value : R)
  | rejected (index : ℕ) (error : E)

def CallEvent.settled (index : ℕ) : Except E R → CallEvent T R E
  | .ok value => .resolved index value
  | .error error => .rejected index error

/-- The variables of a `mapLimit`, its loops, and what has happened. -/
structure Pipeline (T R E : Type) where
  results : List (Option R)
  next : ℕ
  failure : Option E
  workers : List Worker
  trace : List (CallEvent T R E)

/-- `mapLimit` up to the first loop, or its refusal of the width. -/
def mapLimit (items : List T) (width : Number) : Except (String × Number) (Pipeline T R E) :=
  match width.safeInteger with
  | none => refused
  | some w =>
    if w < 1 then refused
    else .ok {
      results := List.replicate items.length none
      next := 0
      failure := none
      workers := List.replicate (min w.toNat items.length) .unlaunched
      trace := [] }
where
  refused : Except (String × Number) (Pipeline T R E) :=
    .error ("mapLimit width must be a positive safe integer, got ", width)

/-- A call rejected, or threw. -/
def Pipeline.reject (s : Pipeline T R E) (index : ℕ) (error : E) : Pipeline T R E :=
  { s with
    failure := if s.failure.isNone then some error else s.failure
    trace := s.trace ++ [.rejected index error] }

/-- A call resolved. -/
def Pipeline.resolve (s : Pipeline T R E) (index : ℕ) (value : R) : Pipeline T R E :=
  { s with
    results := s.results.set index (some value)
    trace := s.trace ++ [.resolved index value] }

def Pipeline.settle (s : Pipeline T R E) (index : ℕ) : Except E R → Pipeline T R E
  | .ok value => s.resolve index value
  | .error error => s.reject index error

/-- A loop up to its next `await`. A worker function that throws before it returns a promise, which
`thrown` says, latches the failure, and the loop returns. -/
def Pipeline.loop (items : List T) (thrown : Option E) (s : Pipeline T R E) :
    Pipeline T R E × Worker :=
  match s.failure, items[s.next]? with
  | none, some item =>
    let index := s.next
    let s := { s with next := s.next + 1, trace := s.trace ++ [.called item] }
    match thrown with
    | none => (s, .awaiting index)
    | some error => (s.reject index error, .done)
  | _, _ => (s, .done)

/-- A loop goes on, in its place among the others. -/
def Pipeline.run (items : List T) (thrown : Option E) (s : Pipeline T R E) (pre post : List Worker) :
    Pipeline T R E :=
  { (s.loop items thrown).1 with workers := pre ++ (s.loop items thrown).2 :: post }

/-- The loops are entered one after the other, and then any call that was started may settle. -/
inductive Pipeline.Step (items : List T) : Pipeline T R E → Pipeline T R E → Prop where
  | launch {s : Pipeline T R E} {pre post : List Worker} (thrown : Option E)
      (hworkers : s.workers = pre ++ .unlaunched :: post) (hpre : .unlaunched ∉ pre) :
      Step items s (s.run items thrown pre post)
  | settle {s : Pipeline T R E} {pre post : List Worker} {index : ℕ} (outcome : Except E R)
      (thrown : Option E) (hworkers : s.workers = pre ++ .awaiting index :: post)
      (hlaunched : .unlaunched ∉ s.workers) :
      Step items s ((s.settle index outcome).run items thrown pre post)

/-- What `mapLimit` settles with, once every loop has returned. -/
def Pipeline.outcome (s : Pipeline T R E) : Option (Except E (List (Option R))) :=
  if ∀ w ∈ s.workers, w = .done then
    match s.failure with
    | some error => some (.error error)
    | none => some (.ok s.results)
  else none

/-! ## What a trace holds -/

/-- The items the worker function was called on, in order. -/
def calls (trace : List (CallEvent T R E)) : List T :=
  trace.filterMap fun | .called item => some item | _ => none

/-- The calls that settled, by their place among the calls. -/
def settlements (trace : List (CallEvent T R E)) : List ℕ :=
  trace.filterMap fun
    | .called _ => none
    | .resolved index _ => some index
    | .rejected index _ => some index

/-- The rejections, in the order they were recorded. -/
def rejections (trace : List (CallEvent T R E)) : List E :=
  trace.filterMap fun | .rejected _ error => some error | _ => none

/-- The calls the loops await. -/
def awaited (workers : List Worker) : List ℕ :=
  workers.filterMap fun | .awaiting index => some index | _ => none

/-- No call follows a rejection. -/
def NoCallAfter : CallEvent T R E → CallEvent T R E → Prop
  | .rejected _ _, .called _ => False
  | _, _ => True

/-- The calls of a trace that goes on are those before and those after. -/
@[simp] theorem calls_append (trace more : List (CallEvent T R E)) :
    calls (trace ++ more) = calls trace ++ calls more := List.filterMap_append

/-- The settlements of a trace that goes on are those before and those after. -/
@[simp] theorem settlements_append (trace more : List (CallEvent T R E)) :
    settlements (trace ++ more) = settlements trace ++ settlements more := List.filterMap_append

/-- The rejections of a trace that goes on are those before and those after. -/
@[simp] theorem rejections_append (trace more : List (CallEvent T R E)) :
    rejections (trace ++ more) = rejections trace ++ rejections more := List.filterMap_append

/-- What a list of workers awaits is what each of its parts awaits. -/
@[simp] theorem awaited_append (workers more : List Worker) :
    awaited (workers ++ more) = awaited workers ++ awaited more := List.filterMap_append

/-! ## The invariant -/

/-- What holds of a pipeline, where `workers` are its loops but for one that runs. -/
structure Pipeline.Inv (items : List T) (s : Pipeline T R E) (workers : List Worker) : Prop where
  next : s.next ≤ items.length
  called : calls s.trace = items.take s.next
  -- every call that was started is awaited by one loop or has settled once
  flight : (awaited workers ++ settlements s.trace).Perm (List.range s.next)
  failure : s.failure = (rejections s.trace).head?
  stopped : s.trace.Pairwise NoCallAfter
  results : s.results.length = items.length
  values : ∀ index value, .resolved index value ∈ s.trace → s.results[index]? = some (some value)
  done : .done ∈ workers → s.failure ≠ none ∨ s.next = items.length

variable {items : List T} {s s' : Pipeline T R E} {pre post : List Worker} {index : ℕ}

/-- A loop that is entered was in no call. -/
theorem Pipeline.Inv.enter (h : s.Inv items (pre ++ .unlaunched :: post)) :
    s.Inv items (pre ++ post) := by
  refine { h with flight := ?_, done := fun hd => h.done ?_ }
  · have hflight := h.flight
    rw [awaited_append] at hflight ⊢
    exact hflight
  · exact List.mem_append.mpr ((List.mem_append.mp hd).imp id (List.mem_cons_of_mem _))

/-- The calls that are awaited are not among those that settled. -/
theorem Pipeline.Inv.awaiting (h : s.Inv items (pre ++ .awaiting index :: post)) :
    (index :: (awaited (pre ++ post) ++ settlements s.trace)).Perm (List.range s.next) := by
  have hflight := h.flight
  rw [awaited_append] at hflight ⊢
  refine List.Perm.trans ?_ hflight
  have hmiddle : awaited (.awaiting index :: post) = index :: awaited post := rfl
  rw [hmiddle, List.append_assoc, List.append_assoc, List.cons_append]
  exact List.perm_middle.symm

/-- A trace with no call after a rejection goes on so, by an event that is no call or before any
rejection. -/
theorem noCallAfter_append {trace : List (CallEvent T R E)} (h : trace.Pairwise NoCallAfter)
    {e : CallEvent T R E} (he : rejections trace = [] ∨ calls [e] = []) :
    (trace ++ [e]).Pairwise NoCallAfter := by
  refine List.pairwise_append.mpr ⟨h, List.pairwise_singleton _ _, fun a ha b hb => ?_⟩
  obtain rfl := List.mem_singleton.mp hb
  cases a with
  | called item => cases b <;> trivial
  | resolved index value => cases b <;> trivial
  | rejected index error =>
    cases b with
    | resolved => trivial
    | rejected => trivial
    | called item =>
      rcases he with he | he
      · have hmem : error ∈ rejections trace := List.mem_filterMap.mpr ⟨_, ha, rfl⟩
        rw [he] at hmem
        cases hmem
      · cases he

/-- A rejection is latched when it is the first. -/
theorem Pipeline.Inv.reject {workers : List Worker} (h : s.Inv items workers) (error : E) :
    (if s.failure.isNone then some error else s.failure) =
      (rejections (s.trace ++ [.rejected index error])).head? := by
  rw [h.failure, rejections_append]
  cases rejections s.trace with
  | nil => rfl
  | cons first rest => rfl

/-- A loop whose call settled has it no longer. -/
theorem Pipeline.Inv.settle (h : s.Inv items (pre ++ .awaiting index :: post))
    (outcome : Except E R) : (s.settle index outcome).Inv items (pre ++ post) := by
  have hperm := h.awaiting
  have hflight : (awaited (pre ++ post) ++ (settlements s.trace ++ [index])).Perm
      (List.range s.next) := by
    refine List.Perm.trans ?_ hperm
    rw [← List.append_assoc]
    exact List.perm_append_singleton _ _
  have hdone : .done ∈ pre ++ post → s.failure ≠ none ∨ s.next = items.length := fun hd => h.done
    (List.mem_append.mpr ((List.mem_append.mp hd).imp id (List.mem_cons_of_mem _)))
  cases outcome with
  | ok value =>
    have hmem : index ∈ List.range s.next := hperm.mem_iff.mp List.mem_cons_self
    have hnew : index ∉ settlements s.trace := fun hold =>
      (List.nodup_cons.mp (hperm.nodup_iff.mpr List.nodup_range)).1 (List.mem_append_right _ hold)
    refine ⟨h.next, ?_, ?_, ?_, noCallAfter_append h.stopped (Or.inr rfl), ?_, ?_, hdone⟩
    · show calls (s.trace ++ _) = _
      rw [calls_append, h.called]
      exact List.append_nil _
    · show (awaited _ ++ settlements (s.trace ++ _)).Perm _
      rw [settlements_append]
      exact hflight
    · show s.failure = (rejections (s.trace ++ _)).head?
      rw [rejections_append, h.failure]
      exact congrArg List.head? (List.append_nil _).symm
    · exact (List.length_set ..).trans h.results
    · intro i v hv
      show (s.results.set index (some value))[i]? = some (some v)
      rcases List.mem_append.mp hv with hv | hv
      -- Each call settles once, so what an earlier one resolved with is not overwritten.
      · have hne : index ≠ i := by
          rintro rfl
          exact hnew (List.mem_filterMap.mpr ⟨_, hv, rfl⟩)
        rw [List.getElem?_set_ne hne, h.values i v hv]
      · obtain ⟨rfl, rfl⟩ := CallEvent.resolved.inj (List.mem_singleton.mp hv)
        have hlt : i < s.results.length := by
          rw [h.results]
          exact lt_of_lt_of_le (List.mem_range.mp hmem) h.next
        rw [List.getElem?_set_self hlt]
  | error error =>
    refine ⟨h.next, ?_, ?_, h.reject error, noCallAfter_append h.stopped (Or.inr rfl), h.results, ?_,
      ?_⟩
    · show calls (s.trace ++ _) = _
      rw [calls_append, h.called]
      exact List.append_nil _
    · show (awaited _ ++ settlements (s.trace ++ _)).Perm _
      rw [settlements_append]
      exact hflight
    · intro i v hv
      rcases List.mem_append.mp hv with hv | hv
      · exact h.values i v hv
      · cases List.mem_singleton.mp hv
    · intro hd
      refine Or.inl ?_
      show (if s.failure.isNone then some error else s.failure) ≠ none
      cases s.failure <;> exact Option.some_ne_none _

/-- A loop goes on to its next `await`, or returns. -/
theorem Pipeline.Inv.run (h : s.Inv items (pre ++ post)) (thrown : Option E) :
    (s.run items thrown pre post).Inv items (pre ++ (s.loop items thrown).2 :: post) := by
  -- A loop that returns calls nothing: what holds of the others holds with it done.
  have hidle : s.failure ≠ none ∨ s.next = items.length →
      s.Inv items (pre ++ .done :: post) := fun hstop =>
    { h with
      flight := by
        have hflight := h.flight
        rw [awaited_append] at hflight ⊢
        exact hflight
      done := fun _ => hstop }
  unfold Pipeline.run
  suffices hrun : (s.loop items thrown).1.Inv items (pre ++ (s.loop items thrown).2 :: post) by
    exact { hrun with }
  unfold Pipeline.loop
  split
  · next item hfailure hitem =>
    have hlt : s.next < items.length := (List.getElem?_eq_some_iff.mp hitem).1
    have hquiet : rejections s.trace = [] := by
      have hhead := h.failure
      rw [hfailure] at hhead
      exact List.head?_eq_none_iff.mp hhead.symm
    have hcalled : calls (s.trace ++ [.called item]) = items.take (s.next + 1) := by
      rw [calls_append, h.called, List.take_add_one, hitem]
      rfl
    have hrange : (s.next :: (awaited (pre ++ post) ++ settlements s.trace)).Perm
        (List.range (s.next + 1)) := by
      rw [List.range_succ]
      exact (h.flight.cons _).trans (List.perm_append_singleton _ _).symm
    have hstopped := noCallAfter_append h.stopped (e := .called item) (Or.inl hquiet)
    have hvalues : ∀ index value, .resolved index value ∈ s.trace ++ [.called item] →
        s.results[index]? = some (some value) := by
      intro i v hv
      rcases List.mem_append.mp hv with hv | hv
      · exact h.values i v hv
      · cases List.mem_singleton.mp hv
    have hrejections : rejections (s.trace ++ [.called item]) = [] := by
      rw [rejections_append, hquiet]
      rfl
    have hsettlements : settlements (s.trace ++ [.called item]) = settlements s.trace := by
      rw [settlements_append]
      exact List.append_nil _
    -- The call is made either way; a call that throws at once is settled in the same turn.
    cases thrown with
    | none =>
      refine ⟨hlt, hcalled, ?_, ?_, hstopped, h.results, hvalues, fun hd => ?_⟩
      · show (awaited _ ++ settlements (s.trace ++ [.called item])).Perm _
        rw [hsettlements, awaited_append]
        rw [awaited_append] at hrange
        refine List.Perm.trans ?_ hrange
        have hmiddle : awaited (.awaiting s.next :: post) = s.next :: awaited post := rfl
        rw [hmiddle, List.append_assoc, List.append_assoc, List.cons_append]
        exact List.perm_middle
      · show s.failure = (rejections (s.trace ++ [.called item])).head?
        rw [hrejections, hfailure]
        rfl
      · refine (h.done ?_).imp id fun hall => absurd hall hlt.ne
        rcases List.mem_append.mp hd with hd | hd
        · exact List.mem_append_left _ hd
        · rcases List.mem_cons.mp hd with hd | hd
          · cases hd
          · exact List.mem_append_right _ hd
    | some error =>
      refine ⟨hlt, ?_, ?_, ?_, noCallAfter_append hstopped (Or.inr rfl), h.results, ?_, fun _ => ?_⟩
      · show calls (s.trace ++ [.called item] ++ _) = _
        rw [calls_append, hcalled]
        exact List.append_nil _
      · show (awaited (pre ++ .done :: post) ++ settlements (s.trace ++ [.called item] ++ _)).Perm _
        rw [settlements_append, hsettlements, ← List.append_assoc]
        refine (List.perm_append_singleton _ _).trans ?_
        rw [awaited_append] at hrange ⊢
        exact hrange
      · show (if s.failure.isNone then some error else s.failure) =
          (rejections (s.trace ++ [.called item] ++ [.rejected s.next error])).head?
        rw [rejections_append, hrejections, hfailure]
        rfl
      · intro i v hv
        rcases List.mem_append.mp hv with hv | hv
        · exact hvalues i v hv
        · cases List.mem_singleton.mp hv
      · refine Or.inl ?_
        show (if s.failure.isNone then some error else s.failure) ≠ none
        rw [hfailure]
        exact Option.some_ne_none _
  · next hneither =>
    refine hidle ?_
    cases hfailure : s.failure with
    | some error => exact Or.inl (Option.some_ne_none _)
    | none =>
      -- Not stopped by a failure, the loop found no next item.
      refine Or.inr (le_antisymm h.next ?_)
      cases hitem : items[s.next]? with
      | none => exact List.getElem?_eq_none_iff.mp hitem
      | some item => exact (hneither item hfailure hitem).elim

/-- A step keeps the invariant. -/
theorem Pipeline.Step.inv (hstep : Pipeline.Step items s s') (h : s.Inv items s.workers) :
    s'.Inv items s'.workers := by
  cases hstep with
  | launch thrown hworkers _ =>
    rw [hworkers] at h
    exact h.enter.run thrown
  | settle outcome thrown hworkers _ =>
    rw [hworkers] at h
    exact (h.settle outcome).run thrown

/-- A step enters no loop twice, and drops none. -/
theorem Pipeline.Step.length_workers (hstep : Pipeline.Step items s s') :
    s'.workers.length = s.workers.length := by
  cases hstep with
  | launch thrown hworkers _ => simp [Pipeline.run, hworkers]
  | settle outcome thrown hworkers _ => simp [Pipeline.run, hworkers]

/-- No more calls are awaited than there are loops. -/
theorem length_awaited (workers : List Worker) : (awaited workers).length ≤ workers.length :=
  List.length_filterMap_le _ _

/-! ## The end of a run -/

/-- The steps left at most: the loops not yet entered, and the calls not yet settled. -/
def Pipeline.remaining (items : List T) (s : Pipeline T R E) : ℕ :=
  s.workers.count .unlaunched + (items.length - (settlements s.trace).length)

/-- A loop that goes on settles none of the calls that are awaited, and enters no other loop. -/
theorem Pipeline.loop_settlements (items : List T) (thrown : Option E) (s : Pipeline T R E) :
    (s.loop items thrown).2 ≠ .unlaunched ∧
      (settlements s.trace) <+: settlements (s.loop items thrown).1.trace := by
  unfold Pipeline.loop
  split
  · cases thrown with
    | none =>
      refine ⟨by simp, ?_⟩
      show settlements s.trace <+: settlements (s.trace ++ _)
      rw [settlements_append]
      exact List.prefix_append _ _
    | some error =>
      refine ⟨by simp, ?_⟩
      show settlements s.trace <+: settlements (s.trace ++ _ ++ _)
      rw [settlements_append, settlements_append, List.append_assoc]
      exact List.prefix_append _ _
  · exact ⟨by simp, List.prefix_refl _⟩

/-- A call that settles is among those that did. -/
theorem Pipeline.settle_settlements (outcome : Except E R) (s : Pipeline T R E) (index : ℕ) :
    settlements (s.settle index outcome).trace = settlements s.trace ++ [index] := by
  cases outcome <;> exact settlements_append _ _

/-- Each step is one of finitely many. -/
theorem Pipeline.Step.remaining_lt (hstep : Pipeline.Step items s s')
    (h : s.Inv items s.workers) : s'.remaining items < s.remaining items := by
  have hcount : (settlements s'.trace).length ≤ items.length := by
    have hflight := (hstep.inv h).flight.length_eq
    rw [List.length_append, List.length_range] at hflight
    have hnext := (hstep.inv h).next
    omega
  unfold Pipeline.remaining
  cases hstep with
  | launch thrown hworkers hpre =>
    next pre post =>
    obtain ⟨hw, hprefix⟩ := s.loop_settlements items thrown
    have hlength := hprefix.length_le
    rw [hworkers]
    simp only [Pipeline.run, List.count_append, List.count_cons_self, List.count_cons_of_ne hw]
    omega
  | settle outcome thrown hworkers hlaunched =>
    next pre post index =>
    obtain ⟨hw, hprefix⟩ := (s.settle index outcome).loop_settlements items thrown
    have hlength := hprefix.length_le
    have hsettled := s.settle_settlements outcome index
    rw [hsettled, List.length_append, List.length_singleton] at hlength
    have hawaiting : Worker.awaiting index ≠ .unlaunched := by simp
    have hrun : (settlements ((s.settle index outcome).run items thrown pre post).trace).length =
      (settlements ((s.settle index outcome).loop items thrown).1.trace).length := rfl
    rw [hrun] at hcount
    rw [hworkers, hrun]
    simp only [Pipeline.run, List.count_append, List.count_cons_of_ne hw,
      List.count_cons_of_ne hawaiting]
    omega

/-- What a pipeline shows outside, under a width. -/
structure Pipeline.Bounded (items : List T) (width : ℕ) (s : Pipeline T R E) : Prop where
  -- at most `width` of the calls that were started have not settled
  inFlight : (calls s.trace).length ≤ (settlements s.trace).length + width
  once : (settlements s.trace).Nodup
  ordered : calls s.trace <+: items
  -- what follows a rejection starts no call
  stopped : s.trace.Pairwise NoCallAfter
  rejects : ∀ error, s.outcome = some (.error error) →
    (rejections s.trace).head? = some error ∧
      ∀ index < (calls s.trace).length, index ∈ settlements s.trace
  resolves : ∀ results, s.outcome = some (.ok results) →
    rejections s.trace = [] ∧ calls s.trace = items ∧ results.length = items.length ∧
      ∀ index < items.length, ∃ value, results[index]? = some (some value) ∧
        .resolved index value ∈ s.trace
  -- it has settled, or it enters a loop, or a call that was started has yet to settle
  goes : s.outcome = none → (∃ s', Pipeline.Step items s s') ∨
    ∃ index < (calls s.trace).length, index ∉ settlements s.trace
  -- a call that has yet to settle may do so next, once every loop was entered
  settles : .unlaunched ∉ s.workers → ∀ index < (calls s.trace).length,
    index ∉ settlements s.trace → ∀ outcome : Except E R, ∃ s', Pipeline.Step items s s' ∧
      CallEvent.settled index outcome ∈ s'.trace

/-- Every call that was started is awaited or has settled. -/
theorem Pipeline.Inv.mem_range (h : s.Inv items s.workers) :
    index < (calls s.trace).length ↔ index ∈ awaited s.workers ∨ index ∈ settlements s.trace := by
  rw [h.called, List.length_take, Nat.min_eq_left h.next, ← List.mem_range, ← h.flight.mem_iff,
    List.mem_append]

/-- An index is awaited by the worker that awaits it. -/
theorem mem_awaited {workers : List Worker} :
    index ∈ awaited workers ↔ .awaiting index ∈ workers := by
  unfold awaited
  rw [List.mem_filterMap]
  constructor
  · rintro ⟨w, hw, heq⟩
    cases w with
    | awaiting i =>
      obtain rfl := Option.some.inj heq
      exact hw
    | unlaunched => cases heq
    | done => cases heq
  · intro hw
    exact ⟨_, hw, rfl⟩

/-- A trace only grows. -/
theorem Pipeline.loop_trace (items : List T) (thrown : Option E) (s : Pipeline T R E) :
    s.trace <+: (s.loop items thrown).1.trace := by
  unfold Pipeline.loop
  split
  · cases thrown with
    | none => exact List.prefix_append _ _
    | some error =>
      show s.trace <+: s.trace ++ _ ++ _
      rw [List.append_assoc]
      exact List.prefix_append _ _
  · exact List.prefix_refl _

/-- A call that is awaited may settle, once every loop was entered. -/
theorem Pipeline.exists_settle (hlaunched : .unlaunched ∉ s.workers)
    (hawaited : .awaiting index ∈ s.workers) (outcome : Except E R) :
    ∃ s', Pipeline.Step items s s' ∧ CallEvent.settled index outcome ∈ s'.trace := by
  obtain ⟨pre, post, hworkers⟩ := List.append_of_mem hawaited
  refine ⟨_, .settle outcome none hworkers hlaunched, ?_⟩
  refine ((s.settle index outcome).loop_trace items none).subset ?_
  cases outcome with
  | ok value => exact List.mem_append_right _ (List.mem_singleton_self _)
  | error error => exact List.mem_append_right _ (List.mem_singleton_self _)

/-- The first loop not yet entered may be. -/
theorem Pipeline.exists_launch (h : .unlaunched ∈ s.workers) : ∃ s', Pipeline.Step items s s' := by
  obtain ⟨pre, post, hworkers, hpre⟩ := List.eq_append_cons_of_mem h
  exact ⟨_, .launch none hworkers hpre⟩

/-- A pipeline under the invariant keeps to its width and its order, and settles as it says. -/
theorem Pipeline.Inv.bounded {w : ℕ} (h : s.Inv items s.workers) (hw : 1 ≤ w)
    (hworkers : s.workers.length = min w items.length) : s.Bounded items w where
  inFlight := by
    have hflight := h.flight.length_eq
    have hwidth := length_awaited s.workers
    rw [List.length_append, List.length_range] at hflight
    rw [h.called, List.length_take, Nat.min_eq_left h.next]
    omega
  once := (List.nodup_append.mp (h.flight.nodup_iff.mpr List.nodup_range)).2.1
  ordered := h.called ▸ List.take_prefix _ _
  stopped := h.stopped
  rejects := by
    intro error houtcome
    unfold Pipeline.outcome at houtcome
    split at houtcome
    · next hdone =>
      cases hfailure : s.failure with
      | none =>
        rw [hfailure] at houtcome
        cases houtcome
      | some first =>
        rw [hfailure] at houtcome
        obtain rfl := Except.error.inj (Option.some.inj houtcome)
        refine ⟨(h.failure.symm.trans hfailure), fun index hindex => ?_⟩
        -- Every loop returned, so no call that was made is still awaited.
        refine (h.mem_range.mp hindex).resolve_left fun hawaited => ?_
        cases hdone _ (mem_awaited.mp hawaited)
    · cases houtcome
  resolves := by
    intro results houtcome
    unfold Pipeline.outcome at houtcome
    split at houtcome
    swap
    · cases houtcome
    next hdone =>
    cases hfailure : s.failure with
    | some first =>
      rw [hfailure] at houtcome
      cases houtcome
    | none =>
      rw [hfailure] at houtcome
      obtain rfl := Except.ok.inj (Option.some.inj houtcome)
      have hquiet : rejections s.trace = [] :=
        List.head?_eq_none_iff.mp (h.failure.symm.trans hfailure)
      -- A loop returned with no failure latched only at the end of the items; with no loop there is
      -- no item.
      have hall : s.next = items.length := by
        cases hlist : s.workers with
        | nil =>
          rw [hlist, List.length_nil] at hworkers
          have hnext := h.next
          omega
        | cons first rest =>
          have hmem : first ∈ s.workers := hlist ▸ List.mem_cons_self
          have hreturned : .done ∈ s.workers := hdone _ hmem ▸ hmem
          exact (h.done hreturned).resolve_left (not_not_intro hfailure)
      have hcalls : calls s.trace = items := by
        rw [h.called, hall, List.take_length]
      refine ⟨hquiet, hcalls, h.results, fun index hindex => ?_⟩
      have hsettled : index ∈ settlements s.trace := by
        refine (h.mem_range.mp (hcalls.symm ▸ hindex)).resolve_left fun hawaited => ?_
        cases hdone _ (mem_awaited.mp hawaited)
      obtain ⟨event, hevent, heq⟩ := List.mem_filterMap.mp hsettled
      cases event with
      | called item => cases heq
      | resolved i value =>
        obtain rfl := Option.some.inj heq
        exact ⟨value, h.values _ _ hevent, hevent⟩
      | rejected i error =>
        have hmem : error ∈ rejections s.trace := List.mem_filterMap.mpr ⟨_, hevent, rfl⟩
        rw [hquiet] at hmem
        cases hmem
  goes := by
    intro houtcome
    by_cases hlaunched : .unlaunched ∈ s.workers
    · exact Or.inl (Pipeline.exists_launch hlaunched)
    · refine Or.inr ?_
      -- A pipeline with no result yet has a loop that did not return; that loop awaits a call.
      have hbusy : ∃ worker ∈ s.workers, worker ≠ .done := by
        by_contra hnone
        push Not at hnone
        unfold Pipeline.outcome at houtcome
        rw [if_pos hnone] at houtcome
        cases hfailure : s.failure <;> rw [hfailure] at houtcome <;> cases houtcome
      obtain ⟨worker, hmem, hne⟩ := hbusy
      cases worker with
      | unlaunched => exact absurd hmem hlaunched
      | done => exact absurd rfl hne
      | awaiting index =>
        have hawaited := mem_awaited.mpr hmem
        refine ⟨index, h.mem_range.mpr (Or.inl hawaited), fun hsettled => ?_⟩
        exact (List.disjoint_of_nodup_append (h.flight.nodup_iff.mpr List.nodup_range)) hawaited
          hsettled
  settles := by
    intro hlaunched index hindex hsettled outcome
    have hawaited := (h.mem_range.mp hindex).resolve_right hsettled
    exact Pipeline.exists_settle hlaunched (mem_awaited.mp hawaited) outcome

/-- The pipeline `mapLimit` starts holds the invariant, under the width it was given. -/
theorem mapLimit_eq_ok {width : Number} {start : Pipeline T R E}
    (h : mapLimit items width = .ok start) :
    ∃ w : ℕ, width.safeInteger = some (w : ℤ) ∧ 1 ≤ w ∧
      start.workers.length = min w items.length ∧ start.Inv items start.workers := by
  unfold mapLimit at h
  split at h
  · cases h
  · next v hv =>
    split at h
    · cases h
    · next hmin =>
      obtain rfl := Except.ok.inj h
      have hnone : awaited (List.replicate (min v.toNat items.length) Worker.unlaunched) = [] := by
        refine List.filterMap_eq_nil_iff.mpr fun worker hworker => ?_
        rw [List.eq_of_mem_replicate hworker]
      refine ⟨v.toNat, by rw [hv, Int.toNat_of_nonneg (by omega)], by omega, List.length_replicate ..,
        Nat.zero_le _, rfl, ?_, rfl, List.Pairwise.nil, List.length_replicate .., ?_, ?_⟩
      · rw [hnone]
        exact List.Perm.refl _
      · intro index value hvalue
        cases hvalue
      · intro hdone
        cases List.eq_of_mem_replicate hdone

/-- A width is refused when it is no safe integer of at least one, and only then. -/
theorem mapLimit_accepts (items : List T) (width : Number) :
    (∃ start : Pipeline T R E, mapLimit items width = .ok start) ↔
      ∃ w : ℕ, width.safeInteger = some (w : ℤ) ∧ 1 ≤ w := by
  constructor
  · rintro ⟨start, hstart⟩
    obtain ⟨w, hwidth, hmin, _⟩ := mapLimit_eq_ok hstart
    exact ⟨w, hwidth, hmin⟩
  · rintro ⟨w, hwidth, hmin⟩
    have hpositive : ¬ (w : ℤ) < 1 := by omega
    simp only [mapLimit, hwidth, if_neg hpositive]
    exact ⟨_, rfl⟩

/-- `mapLimit` takes every safe integer of at least one as its width, and no other number. In the
pipeline it starts, at every state of every run, no more calls than the width are in flight, and they
start in the order of the items, none after a rejection. It settles once all have settled, with the
first rejection, or with the value each call resolved to. Every step brings its end nearer. -/
theorem mapLimit_pipeline (items : List T) (width : Number) :
    ((∃ start : Pipeline T R E, mapLimit items width = .ok start) ↔
      ∃ w : ℕ, width.safeInteger = some (w : ℤ) ∧ 1 ≤ w) ∧
    ∀ start : Pipeline T R E, mapLimit items width = .ok start →
      ∃ w : ℕ, width.safeInteger = some (w : ℤ) ∧ 1 ≤ w ∧
        ∀ s, Relation.ReflTransGen (Pipeline.Step items) start s → s.Bounded items w ∧
          ∀ s', Pipeline.Step items s s' → s'.remaining items < s.remaining items := by
  refine ⟨mapLimit_accepts items width, fun start hstart => ?_⟩
  obtain ⟨w, hwidth, hmin, hworkers, hinv⟩ := mapLimit_eq_ok hstart
  refine ⟨w, hwidth, hmin, fun s hrun => ?_⟩
  suffices h : s.workers.length = min w items.length ∧ s.Inv items s.workers by
    exact ⟨h.2.bounded hmin h.1, fun s' hstep => hstep.remaining_lt h.2⟩
  induction hrun with
  | refl => exact ⟨hworkers, hinv⟩
  | tail _ hstep ih => exact ⟨hstep.length_workers.trans ih.1, hstep.inv ih.2⟩

/-- Two items, at a width of two. -/
theorem mapLimit_pipeline_two : ∃ w : ℕ, (Number.finite 2).safeInteger = some (w : ℤ) ∧ 1 ≤ w ∧
    ∀ s, Relation.ReflTransGen (Pipeline.Step [true, false]) (⟨[none, none], 0, none,
      [.unlaunched, .unlaunched], []⟩ : Pipeline Bool ℕ String) s → s.Bounded [true, false] w ∧
        ∀ s', Pipeline.Step [true, false] s s' →
          s'.remaining [true, false] < s.remaining [true, false] :=
  (mapLimit_pipeline [true, false] (.finite 2)).2 _ rfl

end Durablerun
