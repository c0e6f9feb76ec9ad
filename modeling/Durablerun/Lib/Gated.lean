import Mathlib.Data.List.Forall2
import Mathlib.Data.List.Nodup

/-!
# Gated statements

A batch is a list of statements over one state. A statement may name an earlier one that gates it: it
can only act on what that one marked. An executor that pays for each statement may skip one whose gate
wrote nothing. Skipping is sound when a statement finds nothing where its gate left no mark, and when
only the statement of a name leaves the marks of that name.
-/

namespace Gated

variable {σ ν : Type} [DecidableEq ν]

/-- A statement: its name if it leaves marks, the statement that gates it, and what it does, with the
rows it wrote. It may be refused. -/
structure Command (σ ν : Type) where
  name : Option ν
  gate : Option ν
  send : σ → Option (σ × ℕ)

/-- Every statement is sent. -/
def sendAll : List (Command σ ν) → σ → Option (σ × List ℕ)
  | [], s => some (s, [])
  | sent :: rest, s => do
    let (s', wrote) ← sent.send s
    let (s'', counts) ← sendAll rest s'
    return (s'', wrote :: counts)

/-- The state a batch leaves. -/
def leaves (l : List (Command σ ν)) (s : σ) : Option σ := (sendAll l s).map Prod.fst

omit [DecidableEq ν] in
/-- No statement leaves the state as it is. -/
@[simp] theorem leaves_nil (s : σ) : leaves ([] : List (Command σ ν)) s = some s := rfl

omit [DecidableEq ν] in
/-- A list of statements leaves what the rest leaves after the first. -/
theorem leaves_cons (sent : Command σ ν) (l : List (Command σ ν)) (s : σ) :
    leaves (sent :: l) s = ((sent.send s).map Prod.fst).bind (leaves l) := by
  unfold leaves
  rw [sendAll]
  cases sent.send s with
  | none => rfl
  | some answer =>
    simp only [Option.bind_eq_bind, Option.bind_some, Option.map_some]
    cases sendAll l answer.1 <;> rfl

omit [DecidableEq ν] in
/-- After a statement that was sent, the rest goes on from its state. -/
theorem leaves_of_send {sent : Command σ ν} {l : List (Command σ ν)} {s : σ} {wrote : ℕ} (s' : σ)
    (h : sent.send s = some (s', wrote)) : leaves (sent :: l) s = leaves l s' := by
  rw [leaves_cons, h]
  rfl

omit [DecidableEq ν] in
/-- Two lists one after the other leave what the second leaves after the first. -/
theorem leaves_append (l l' : List (Command σ ν)) (s : σ) :
    leaves (l ++ l') s = (leaves l s).bind (leaves l') := by
  induction l generalizing s with
  | nil => rfl
  | cons sent rest ih =>
    rw [List.cons_append, leaves_cons, leaves_cons, Option.bind_assoc]
    congr 1
    funext s'
    exact ih s'

/-- What the gate of a statement wrote, of the statements done so far, the last one first. -/
def gateWrote (done : List (Option ν × ℕ)) (sent : Command σ ν) : Option ℕ :=
  sent.gate.bind fun gate => (done.find? fun entry => entry.1 = some gate).map Prod.snd

/-- A statement whose gate wrote nothing is not sent, and answers with no rows. -/
def sendUnlessSkipped (done : List (Option ν × ℕ)) :
    List (Command σ ν) → σ → Option (σ × List ℕ)
  | [], s => some (s, [])
  | sent :: rest, s =>
    if gateWrote done sent = some 0 then do
      let (s', counts) ← sendUnlessSkipped ((sent.name, 0) :: done) rest s
      return (s', 0 :: counts)
    else do
      let (s', wrote) ← sent.send s
      let (s'', counts) ← sendUnlessSkipped ((sent.name, wrote) :: done) rest s'
      return (s'', wrote :: counts)

/-! ## Skipping is sound -/

variable {unmarked : ν → σ → Prop} {sent : Command σ ν} {l : List (Command σ ν)} {s s' : σ}
  {done : List (Option ν × ℕ)} {counts : List ℕ}

/-- A statement that finds nothing where its gate left no mark, leaves no marks but its own, and
changes nothing where it writes nothing. -/
structure Command.Sound (unmarked : ν → σ → Prop) (sent : Command σ ν) : Prop where
  idle : ∀ gate ∈ sent.gate, ∀ s, unmarked gate s → sent.send s = some (s, 0)
  keeps : ∀ s s' wrote, sent.send s = some (s', wrote) → ∀ name, sent.name ≠ some name →
    unmarked name s → unmarked name s'
  unwritten : ∀ s s', sent.send s = some (s', 0) → s' = s

omit [DecidableEq ν] in
/-- A statement that wrote nothing keeps every name unmarked. -/
theorem Command.Sound.keeps_unwritten (h : sent.Sound unmarked) (hsend : sent.send s = some (s', 0))
    {name : ν} (hname : unmarked name s) : unmarked name s' := h.unwritten s s' hsend ▸ hname

/-- The names that are unmarked: those not done yet, and those done that wrote nothing. -/
def Unmarked (unmarked : ν → σ → Prop) (done : List (Option ν × ℕ)) (s : σ) : Prop :=
  ∀ name, (∀ wrote, (some name, wrote) ∈ done → wrote = 0) → unmarked name s

/-- After a statement, the names that wrote nothing still mark nothing. -/
theorem Unmarked.next (h : Unmarked unmarked done s) (hsound : sent.Sound unmarked) {wrote : ℕ}
    (hsend : sent.send s = some (s', wrote)) : Unmarked unmarked ((sent.name, wrote) :: done) s' := by
  intro name hname
  have hbefore : unmarked name s :=
    h name fun wrote' hmem => hname wrote' (List.mem_cons_of_mem _ hmem)
  by_cases hown : sent.name = some name
  · obtain rfl : wrote = 0 := hname wrote (hown ▸ List.mem_cons_self)
    exact hsound.keeps_unwritten hsend hbefore
  · exact hsound.keeps s s' wrote hsend name hown hbefore

/-- A statement whose gate wrote nothing has a gate that wrote nothing. -/
theorem gateWrote_eq_zero (h : gateWrote done sent = some 0) :
    ∃ gate ∈ sent.gate, (some gate, 0) ∈ done := by
  obtain ⟨gate, hgate, hfound⟩ := Option.bind_eq_some_iff.mp h
  obtain ⟨⟨name, wrote⟩, hentry, rfl⟩ := Option.map_eq_some_iff.mp hfound
  obtain rfl : name = some gate := by simpa using List.find?_some hentry
  exact ⟨gate, hgate, List.mem_of_find?_eq_some hentry⟩

/-- The entries of one name agree. -/
def Single (done : List (Option ν × ℕ)) : Prop :=
  ∀ name wrote wrote', (some name, wrote) ∈ done → (some name, wrote') ∈ done → wrote = wrote'

/-- From a state where what wrote nothing marks nothing, skipping gated statements sends what
sending all of them does. -/
theorem sendUnlessSkipped_eq_aux (hsound : ∀ sent ∈ l, sent.Sound unmarked)
    (hnames : (l.filterMap Command.name).Nodup)
    (hapart : ∀ name ∈ l.filterMap Command.name, ∀ wrote, (some name, wrote) ∉ done)
    (hsingle : Single done) (hmarks : Unmarked unmarked done s) :
    sendUnlessSkipped done l s = sendAll l s := by
  induction l generalizing s done with
  | nil => rfl
  | cons sent rest ih =>
    have hhead := hsound sent List.mem_cons_self
    have hrest : (rest.filterMap Command.name).Nodup := by
      refine hnames.sublist ?_
      exact (List.sublist_cons_self sent rest).filterMap _
    -- The rest goes on as if it were alone, whatever this statement wrote.
    have hnext : ∀ {s' : σ} {wrote : ℕ}, sent.send s = some (s', wrote) →
        sendUnlessSkipped ((sent.name, wrote) :: done) rest s' = sendAll rest s' := by
      intro s' wrote hsend
      refine ih (fun q hq => hsound q (List.mem_cons_of_mem _ hq)) hrest
        (fun name hname wrote' hmem => ?_) (fun name w w' hw hw' => ?_) (hmarks.next hhead hsend)
      · obtain hmem | hmem := List.mem_cons.mp hmem
        · have hown : sent.name = some name := (congrArg Prod.fst hmem).symm
          rw [List.filterMap_cons_some hown] at hnames
          exact (List.nodup_cons.mp hnames).1 hname
        · refine hapart name ?_ wrote' hmem
          exact ((List.sublist_cons_self sent rest).filterMap Command.name).subset hname
      · have hnew : ∀ {w : ℕ}, sent.name = some name → (some name, w) ∉ done := by
          intro w hown
          exact hapart name (List.mem_filterMap.mpr ⟨sent, List.mem_cons_self, hown⟩) w
        obtain hw | hw := List.mem_cons.mp hw <;> obtain hw' | hw' := List.mem_cons.mp hw'
        · exact ((congrArg Prod.snd hw).trans (congrArg Prod.snd hw').symm)
        · exact absurd hw' (hnew (congrArg Prod.fst hw).symm)
        · exact absurd hw (hnew (congrArg Prod.fst hw').symm)
        · exact hsingle name w w' hw hw'
    rw [sendUnlessSkipped, sendAll]
    split
    · rename_i hskip
      obtain ⟨gate, hgate, hzero⟩ := gateWrote_eq_zero hskip
      have hidle : sent.send s = some (s, 0) := hhead.idle gate hgate s
        (hmarks gate fun wrote hmem => hsingle gate wrote 0 hmem hzero)
      rw [hnext hidle, hidle]
      rfl
    · cases hsend : sent.send s with
      | none => rfl
      | some answer =>
        obtain ⟨s', wrote⟩ := answer
        simp only [Option.bind_eq_bind, Option.bind_some]
        rw [hnext hsend]

/-- On a state that bears none of the batch's marks, skipping changes neither the state a batch leaves
nor a statement's count of rows. -/
theorem sendUnlessSkipped_eq (hsound : ∀ sent ∈ l, sent.Sound unmarked)
    (hnames : (l.filterMap Command.name).Nodup) (hunmarked : ∀ name, unmarked name s) :
    sendUnlessSkipped [] l s = sendAll l s :=
  sendUnlessSkipped_eq_aux hsound hnames (fun _ _ _ => List.not_mem_nil)
    (fun _ _ _ hmem => absurd hmem List.not_mem_nil) fun name _ => hunmarked name

/-! ## A batch that loses -/

/-- Every gate names a statement before it. -/
def Ordered (names : List ν) : List (Command σ ν) → Prop
  | [] => True
  | sent :: rest => (∀ gate ∈ sent.gate, gate ∈ names) ∧
    Ordered (sent.name.toList ++ names) rest

/-- Decided statement by statement. -/
def decidableOrdered : (names : List ν) → (l : List (Command σ ν)) → Decidable (Ordered names l)
  | _, [] => isTrue trivial
  | names, sent :: rest =>
    haveI := decidableOrdered (sent.name.toList ++ names) rest
    inferInstanceAs (Decidable (_ ∧ _))

instance (names : List ν) (l : List (Command σ ν)) : Decidable (Ordered names l) :=
  decidableOrdered names l

/-- A statement that leaves no marks and changes nothing. -/
structure Command.Reads (sent : Command σ ν) : Prop where
  name : sent.name = none
  same : ∀ s s' wrote, sent.send s = some (s', wrote) → s' = s

/-- The statement answered with no row if it is gated, and as the state has it if it is not. -/
structure Command.Lost (s : σ) (sent : Command σ ν) (wrote : ℕ) : Prop where
  gated : sent.gate ≠ none → wrote = 0
  ungated : sent.gate = none → sent.send s = some (s, wrote)

/-- From counts that are all zero, every statement that follows counts nothing. -/
theorem sendUnlessSkipped_lost_aux {names : List ν} (hsound : ∀ sent ∈ l, sent.Sound unmarked)
    (hordered : Ordered names l) (hnames : ∀ name ∈ names, ∃ wrote, (some name, wrote) ∈ done)
    (hzero : ∀ name wrote, (some name, wrote) ∈ done → wrote = 0)
    (hrun : sendUnlessSkipped done l s = some (s', counts))
    (hlost : List.Forall₂ (fun sent wrote => sent.gate = none → wrote = 0 ∨ sent.Reads) l counts) :
    s' = s ∧ List.Forall₂ (Command.Lost s) l counts := by
  induction l generalizing s s' counts done names with
  | nil =>
    obtain ⟨rfl, rfl⟩ := Prod.mk.inj (Option.some.inj hrun)
    exact ⟨rfl, .nil⟩
  | cons sent rest ih =>
    have hnext : ∀ {s₁ : σ} {wrote : ℕ} {rest' : List ℕ},
        (wrote = 0 ∨ sent.name = none) →
        sendUnlessSkipped ((sent.name, wrote) :: done) rest s = some (s₁, rest') →
        List.Forall₂ (fun sent wrote => sent.gate = none → wrote = 0 ∨ sent.Reads) rest rest' →
          s₁ = s ∧ List.Forall₂ (Command.Lost s) rest rest' := by
      intro s₁ wrote rest' hwrote hrest hlost'
      refine ih (fun q hq => hsound q (List.mem_cons_of_mem _ hq)) hordered.2 (fun name hname => ?_)
        (fun name wrote' hmem => ?_) hrest hlost'
      · obtain hown | hname := List.mem_append.mp hname
        · exact ⟨wrote, (Option.mem_toList.mp hown) ▸ List.mem_cons_self⟩
        · obtain ⟨wrote', hmem⟩ := hnames name hname
          exact ⟨wrote', List.mem_cons_of_mem _ hmem⟩
      · obtain hmem | hmem := List.mem_cons.mp hmem
        · obtain ⟨hname, rfl⟩ := Prod.mk.inj hmem
          exact hwrote.resolve_right fun hnone => Option.some_ne_none name (hname.trans hnone)
        · exact hzero name wrote' hmem
    rw [sendUnlessSkipped] at hrun
    split at hrun
    · obtain ⟨⟨s₁, rest'⟩, hrest, hout⟩ := Option.bind_eq_some_iff.mp hrun
      obtain ⟨rfl, rfl⟩ := Prod.mk.inj (Option.some.inj hout)
      obtain ⟨hsame, hcounts⟩ := hnext (Or.inl rfl) hrest (List.forall₂_cons.mp hlost).2
      obtain ⟨gate, hgate, _⟩ := gateWrote_eq_zero ‹_›
      exact ⟨hsame, .cons ⟨fun _ => rfl, fun hnone => absurd (hnone ▸ hgate) (Option.not_mem_none _)⟩
        hcounts⟩
    · rename_i hsent
      obtain ⟨⟨s₁, wrote⟩, hsend, hrun⟩ := Option.bind_eq_some_iff.mp hrun
      obtain ⟨⟨s₂, rest'⟩, hrest, hout⟩ := Option.bind_eq_some_iff.mp hrun
      obtain ⟨rfl, rfl⟩ := Prod.mk.inj (Option.some.inj hout)
      -- A gated statement whose gate is done would have been skipped.
      have hungated : sent.gate = none := by
        by_contra hgated
        obtain ⟨gate, hgate⟩ := Option.ne_none_iff_exists'.mp hgated
        obtain ⟨wrote', hmem⟩ := hnames gate (hordered.1 gate hgate)
        refine hsent ?_
        unfold gateWrote
        rw [hgate, Option.bind_some]
        have hfound : (done.find? fun entry => entry.1 = some gate) ≠ none := by
          rw [Ne, List.find?_eq_none]
          exact fun hno => hno _ hmem (by simp)
        obtain ⟨⟨name, wrote'⟩, hentry⟩ := Option.ne_none_iff_exists'.mp hfound
        obtain rfl : name = some gate := by simpa using List.find?_some hentry
        rw [hentry, Option.map_some, hzero gate wrote' (List.mem_of_find?_eq_some hentry)]
      obtain ⟨hhead, hrestLost⟩ := List.forall₂_cons.mp hlost
      have hstay : s₁ = s ∧ (wrote = 0 ∨ sent.name = none) := by
        obtain rfl | hreads := hhead hungated
        · exact ⟨(hsound sent List.mem_cons_self).unwritten s s₁ hsend, Or.inl rfl⟩
        · exact ⟨hreads.same s s₁ wrote hsend, Or.inr hreads.name⟩
      obtain ⟨rfl, hwrote⟩ := hstay
      obtain ⟨hsame, hcounts⟩ := hnext hwrote hrest hrestLost
      exact ⟨hsame, .cons ⟨fun hgated => absurd hungated hgated, fun _ => hsend⟩ hcounts⟩

/-- Whatever marks a state bears: a batch that skips, and whose ungated statements wrote nothing or
only read, leaves it as it was, no gated statement answers with a row, and what only reads answers from
the state as it was. -/
theorem sendUnlessSkipped_lost (hsound : ∀ sent ∈ l, sent.Sound unmarked) (hordered : Ordered [] l)
    (hrun : sendUnlessSkipped [] l s = some (s', counts))
    (hlost : List.Forall₂ (fun sent wrote => sent.gate = none → wrote = 0 ∨ sent.Reads) l counts) :
    s' = s ∧ List.Forall₂ (Command.Lost s) l counts :=
  sendUnlessSkipped_lost_aux hsound hordered (fun _ hmem => absurd hmem List.not_mem_nil)
    (fun _ _ hmem => absurd hmem List.not_mem_nil) hrun hlost

/-! ## A gate that wrote nothing -/

/-- A statement whose gate wrote nothing wrote nothing. -/
def Answered (done : List (Option ν × ℕ)) : List (Command σ ν) → List ℕ → Prop
  | sent :: rest, wrote :: counts =>
    (gateWrote done sent = some 0 → wrote = 0) ∧ Answered ((sent.name, wrote) :: done) rest counts
  | _, _ => True

/-- Each statement is answered by its own count, and a skipped one by none. -/
theorem answered_of_sendUnlessSkipped (hrun : sendUnlessSkipped done l s = some (s', counts)) :
    Answered done l counts := by
  induction l generalizing s counts done with
  | nil => cases counts <;> trivial
  | cons sent rest ih =>
    rw [sendUnlessSkipped] at hrun
    split at hrun
    · obtain ⟨⟨s₁, rest'⟩, hrest, hout⟩ := Option.bind_eq_some_iff.mp hrun
      obtain ⟨rfl, rfl⟩ := Prod.mk.inj (Option.some.inj hout)
      exact ⟨fun _ => rfl, ih hrest⟩
    · rename_i hsent
      obtain ⟨⟨s₁, wrote⟩, hsend, hrun⟩ := Option.bind_eq_some_iff.mp hrun
      obtain ⟨⟨s₂, rest'⟩, hrest, hout⟩ := Option.bind_eq_some_iff.mp hrun
      obtain ⟨rfl, rfl⟩ := Prod.mk.inj (Option.some.inj hout)
      exact ⟨fun hzero => absurd hzero hsent, ih hrest⟩

end Gated
