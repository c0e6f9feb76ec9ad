import Mathlib.Logic.Function.Basic
import Mathlib.Data.List.Count
import Mathlib.Order.Defs.PartialOrder

/-!
# Programs that share a state

A program is a tree: the calls it makes, and how it goes on with each answer. Several programs run
against one state, whose calls come in any order, and any of them may stop. What a program may call
in view of what it knows is a property of its tree; where every allowed call keeps an invariant and
what everyone else knows, every interleaving does.
-/

/-- A program that calls `Op`s, and returns a value or throws. -/
inductive Program (Op Answer Error α : Type) where
  | pure (value : α)
  | throw (error : Error)
  | call (op : Op) (next : Answer → Program Op Answer Error α)

namespace Program

variable {Op Answer Error α β K : Type}

/-! ## Sequencing -/

protected def bind : Program Op Answer Error α → (α → Program Op Answer Error β) →
    Program Op Answer Error β
  | .pure value, f => f value
  | .throw error, _ => .throw error
  | .call op next, f => .call op fun answer => (next answer).bind f

instance : Monad (Program Op Answer Error) where
  pure := .pure
  bind := .bind

/-- `try p catch (error) handler`. -/
def tryCatch : Program Op Answer Error α → (Error → Program Op Answer Error α) →
    Program Op Answer Error α
  | .pure value, _ => .pure value
  | .throw error, handler => handler error
  | .call op next, handler => .call op fun answer => (next answer).tryCatch handler

/-- What a call answered, returned or thrown. -/
def ofExcept : Except Error α → Program Op Answer Error α
  | .ok value => .pure value
  | .error error => .throw error

/-! ## What a program may call -/

/-- What may be called knowing something, and what its answer adds. -/
structure Rules (K Op Answer : Type) where
  may : K → Op → Prop
  learn : K → Op → Answer → K → Prop

variable {R : Rules K Op Answer} {raises raises' : K → Error → Prop} {returns returns' : K → α → Prop}
  {k : K} {p : Program Op Answer Error α}

/-- Each call of the program is allowed, and so is how it ends. -/
def Safe (R : Rules K Op Answer) (raises : K → Error → Prop) (returns : K → α → Prop) :
    K → Program Op Answer Error α → Prop
  | k, .pure value => returns k value
  | k, .throw error => raises k error
  | k, .call op next => R.may k op ∧ ∀ answer k', R.learn k op answer k' →
      Safe R raises returns k' (next answer)

/-- A program that is safe is so for a weaker demand on how it ends. -/
theorem Safe.imp (h : Safe R raises returns k p) (hraises : ∀ k e, raises k e → raises' k e)
    (hreturns : ∀ k a, returns k a → returns' k a) : Safe R raises' returns' k p := by
  induction p generalizing k with
  | pure value => exact hreturns k value h
  | throw error => exact hraises k error h
  | call op next ih => exact ⟨h.1, fun answer k' hlearn => ih answer (h.2 answer k' hlearn)⟩

/-- A sequence is safe where its first part is, and what follows is in view of what is then known.
-/
theorem Safe.bind {f : α → Program Op Answer Error β} {returns : K → β → Prop}
    (h : Safe R raises (fun k value => Safe R raises returns k (f value)) k p) :
    Safe R raises returns k (p >>= f) := by
  induction p generalizing k with
  | pure value => exact h
  | throw error => exact h
  | call op next ih => exact ⟨h.1, fun answer k' hlearn => ih answer (h.2 answer k' hlearn)⟩

/-- A program with a handler is safe where it is, and its handler is for what it throws. -/
theorem Safe.tryCatch {handler : Error → Program Op Answer Error α}
    (h : Safe R (fun k error => Safe R raises returns k (handler error)) returns k p) :
    Safe R raises returns k (p.tryCatch handler) := by
  induction p generalizing k with
  | pure value => exact h
  | throw error => exact h
  | call op next ih => exact ⟨h.1, fun answer k' hlearn => ih answer (h.2 answer k' hlearn)⟩

/-! ## How many calls a program makes -/

/-- The program makes at most so many calls. -/
def Calls : ℕ → Program Op Answer Error α → Prop
  | _, .pure _ => True
  | _, .throw _ => True
  | 0, .call _ _ => False
  | n + 1, .call _ next => ∀ answer, Calls n (next answer)

variable {m n : ℕ}

/-- A program that returns makes no call. -/
theorem calls_pure (n : ℕ) (value : α) : Calls n (.pure value : Program Op Answer Error α) := by
  cases n <;> trivial

/-- A program that throws makes no call. -/
theorem calls_throw (n : ℕ) (error : Error) : Calls n (.throw error : Program Op Answer Error α) := by
  cases n <;> trivial

/-- A bound on a program's calls may be raised. -/
theorem Calls.mono (h : Calls m p) (hle : m ≤ n) : Calls n p := by
  induction p generalizing m n with
  | pure value => exact calls_pure n value
  | throw error => exact calls_throw n error
  | call op next ih =>
    cases m with
    | zero => exact h.elim
    | succ m =>
      cases n with
      | zero => exact absurd hle (Nat.not_succ_le_zero m)
      | succ n => exact fun answer => ih answer (h answer) (Nat.le_of_succ_le_succ hle)

/-- A sequence makes the calls of its two parts. -/
theorem Calls.bind {f : α → Program Op Answer Error β} (h : Calls m p) (hf : ∀ a, Calls n (f a)) :
    Calls (m + n) (p >>= f) := by
  induction p generalizing m with
  | pure value => exact (hf value).mono (Nat.le_add_left n m)
  | throw error => exact calls_throw _ error
  | call op next ih =>
    cases m with
    | zero => exact h.elim
    | succ m =>
      rw [Nat.succ_add]
      exact fun answer => ih answer (h answer)

/-- A program with a handler makes at most the calls of both. -/
theorem Calls.tryCatch {handler : Error → Program Op Answer Error α} (h : Calls m p)
    (hhandler : ∀ e, Calls n (handler e)) : Calls (m + n) (p.tryCatch handler) := by
  induction p generalizing m with
  | pure value => exact calls_pure _ value
  | throw error => exact (hhandler error).mono (Nat.le_add_left n m)
  | call op next ih =>
    cases m with
    | zero => exact h.elim
    | succ m =>
      rw [Nat.succ_add]
      exact fun answer => ih answer (h answer)

end Program

/-! ## Programs side by side -/

/-- A shared state, and what each program has still to do. -/
structure Sessions (ι S Op Answer Error : Type) where
  state : S
  program : ι → Program Op Answer Error Unit

namespace Sessions

open Program

variable {ι S Op Answer Error K : Type} [DecidableEq ι] {exec : Op → S → Answer → S → Prop}
  {s s' s'' : Sessions ι S Op Answer Error} {i j : ι} {schedule schedule' : List ι}

/-- One program's next call takes effect and is answered. -/
inductive Step (exec : Op → S → Answer → S → Prop) (i : ι) (s : Sessions ι S Op Answer Error) :
    Sessions ι S Op Answer Error → Prop
  | call {op next answer state} (hprogram : s.program i = .call op next)
      (hexec : exec op s.state answer state) :
      Step exec i s ⟨state, Function.update s.program i (next answer)⟩

/-- All a step does: it answers its program's call, and leaves the others as they were. -/
theorem Step.cases (h : Step exec i s s') :
    ∃ op next answer, s.program i = .call op next ∧ exec op s.state answer s'.state ∧
      s'.program i = next answer ∧ ∀ j, j ≠ i → s'.program j = s.program j := by
  obtain @⟨op, next, answer, state, hprogram, hexec⟩ := h
  exact ⟨op, next, answer, hprogram, hexec, Function.update_self i _ _,
    fun j hj => Function.update_of_ne hj _ _⟩

/-- A run, and whose call each step of it was. -/
inductive Runs (exec : Op → S → Answer → S → Prop) :
    Sessions ι S Op Answer Error → List ι → Sessions ι S Op Answer Error → Prop
  | nil (a) : Runs exec a [] a
  | cons {a b c who rest} (hstep : Step exec who a b) (hrest : Runs exec b rest c) :
      Runs exec a (who :: rest) c

/-- No program is called for more often than it calls. -/
theorem Runs.count_le (h : Runs exec s schedule s') {n : ℕ} (hcalls : (s.program i).Calls n) :
    schedule.count i ≤ n := by
  induction h generalizing n with
  | nil => exact Nat.zero_le n
  | @cons s _ _ j schedule hstep _ ih =>
    obtain ⟨op, next, answer, hprogram, _, hself, hothers⟩ := hstep.cases
    by_cases hij : i = j
    · subst hij
      rw [hprogram] at hcalls
      cases n with
      | zero => exact hcalls.elim
      | succ n =>
        rw [List.count_cons_self]
        refine Nat.succ_le_succ (ih ?_)
        rw [hself]
        exact hcalls answer
    · rw [List.count_cons_of_ne (Ne.symm hij)]
      refine ih ?_
      rw [hothers i hij]
      exact hcalls

/-- Allowed calls keep an invariant of the state, move it only in ways that leave what the others
know true, and teach their caller something true. -/
structure Kept (exec : Op → S → Answer → S → Prop) (R : Rules K Op Answer) (inv : S → Prop)
    (moves : S → S → Prop) (knows : K → S → Prop) : Prop where
  refl : ∀ state, moves state state
  trans : ∀ a b c, moves a b → moves b c → moves a c
  step : ∀ {k op state answer state'}, inv state → knows k state → R.may k op →
    exec op state answer state' →
      inv state' ∧ moves state state' ∧ ∃ k', R.learn k op answer k' ∧ knows k' state'
  stable : ∀ {k state state'}, moves state state' → knows k state → knows k state'

variable {R : Rules K Op Answer} {raises : K → Error → Prop} {returns : ι → K → Unit → Prop}
  {inv : S → Prop} {moves : S → S → Prop} {knows : K → S → Prop}

/-- The invariant, and for every program something it knows that allows all it has still to do. -/
structure Sound (R : Rules K Op Answer) (raises : K → Error → Prop) (returns : ι → K → Unit → Prop)
    (inv : S → Prop) (knows : K → S → Prop) (s : Sessions ι S Op Answer Error) : Prop where
  inv : inv s.state
  safe : ∀ i, ∃ k, knows k s.state ∧ Safe R raises (returns i) k (s.program i)

/-- A step of one program keeps what every program knows and may do. -/
theorem Sound.step (hkept : Kept exec R inv moves knows) (h : Sound R raises returns inv knows s)
    (hstep : Step exec i s s') :
    Sound R raises returns inv knows s' ∧ moves s.state s'.state := by
  obtain ⟨op, next, answer, hprogram, hexec, hself, hothers⟩ := hstep.cases
  obtain ⟨k, hknows, hsafe⟩ := h.safe i
  rw [hprogram] at hsafe
  obtain ⟨hinv, hmoves, k', hlearn, hknows'⟩ := hkept.step h.inv hknows hsafe.1 hexec
  refine ⟨⟨hinv, fun j => ?_⟩, hmoves⟩
  by_cases hij : j = i
  · subst hij
    refine ⟨k', hknows', ?_⟩
    rw [hself]
    exact hsafe.2 answer k' hlearn
  · obtain ⟨k, hknows, hsafe⟩ := h.safe j
    refine ⟨k, hkept.stable hmoves hknows, ?_⟩
    rw [hothers j hij]
    exact hsafe

/-- Programs that are safe from the start are safe throughout, however they interleave. -/
theorem Sound.runs (hkept : Kept exec R inv moves knows) (h : Sound R raises returns inv knows s)
    (hruns : Runs exec s schedule s') :
    Sound R raises returns inv knows s' ∧ moves s.state s'.state := by
  induction hruns with
  | nil => exact ⟨h, hkept.refl _⟩
  | cons hstep _ ih =>
    obtain ⟨hsound, hfirst⟩ := h.step hkept hstep
    obtain ⟨hend, hrest⟩ := ih hsound
    exact ⟨hend, hkept.trans _ _ _ hfirst hrest⟩

end Sessions
