/-
A relay. Events go through a bounded channel to a task that takes note of each
one and passes it on, through a second bounded channel, to a second task that
serves it.

Both tasks keep a state that is a fold over the events, and both lag behind
what has been emitted. `settled_tracked` and `settled_served` are the states
they will have when everything emitted so far is handled: the tasks' own steps
leave these alone, emitting an event applies it to both, and the relay can
always be drained. So a property "once the events are drained" is one of the
settled states (`once_drained_iff`).
-/
import InputSync.Trace

set_option autoImplicit false

universe u v w

namespace InputSync

/-- The two channels, the states of the two tasks, and the event the first task
has noted and not yet passed on. -/
structure Relay (E : Type u) (A : Type v) (B : Type w) where
  first : List E
  tracked : A
  hand : Option E
  second : List E
  served : B

/-- The steps of the two tasks: the first one receives and notes an event or
sends it on, the second one receives and serves one. -/
inductive RelayStep
  | take | forward | handle
deriving DecidableEq

namespace Relay

variable {E : Type u} {A : Type v} {B : Type w}

/-- Nothing emitted, both tasks in their first state. -/
def new (tracked : A) (served : B) : Relay E A B :=
  { first := [], tracked, hand := none, second := [], served }

/-- A send on the first channel; `none` while it is full. -/
def emit (capacity : Nat) (self : Relay E A B) (e : E) : Option (Relay E A B) :=
  if self.first.length < capacity then some { self with first := self.first ++ [e] } else none

variable (track : A → E → A) (serve : B → E → B) (capacity : Nat)

/-- A step of one of the tasks; `capacity` is that of the second channel. -/
def step (self : Relay E A B) : RelayStep → Option (Relay E A B)
  | .take =>
    match self.first, self.hand with
    | e :: first, none =>
      some { self with first, tracked := track self.tracked e, hand := some e }
    | _, _ => none
  | .forward =>
    match self.hand with
    | some e =>
      if self.second.length < capacity then
        some { self with hand := none, second := self.second ++ [e] }
      else none
    | none => none
  | .handle =>
    match self.second with
    | e :: second => some { self with second, served := serve self.served e }
    | [] => none

/-! ## What a step can do

One inversion lemma for each action, guards included. -/

/-- An emission is possible while the first channel has room, and does nothing but
append. The three lemmas after it invert the steps of the tasks in the same way; the
proofs below cite them and never unfold `step`. -/
theorem emit_eq_some {capacity : Nat} {self next : Relay E A B} {e : E}
    (h : self.emit capacity e = some next) :
    self.first.length < capacity ∧ next = { self with first := self.first ++ [e] } := by
  unfold emit at h
  split_ifs at h with hroom
  exact ⟨hroom, (Option.some.inj h).symm⟩

variable {track serve capacity}

/-- The first task takes an event only when its hand is empty, and notes it at once. -/
theorem step_take {self next : Relay E A B} (h : step track serve capacity self .take = some next) :
    ∃ e first, self.first = e :: first ∧ self.hand = none ∧
      next = { self with first, tracked := track self.tracked e, hand := some e } := by
  simp only [step] at h
  split at h
  · rename_i e first hfirst hhand
    exact ⟨e, first, hfirst, hhand, (Option.some.inj h).symm⟩
  · cases h

/-- It passes the event on when the second channel has room. Between the two steps the
event is in its hand, so the two states can disagree about it. -/
theorem step_forward {self next : Relay E A B}
    (h : step track serve capacity self .forward = some next) :
    ∃ e, self.hand = some e ∧ self.second.length < capacity ∧
      next = { self with hand := none, second := self.second ++ [e] } := by
  simp only [step] at h
  split at h
  · rename_i e hhand
    split_ifs at h with hroom
    exact ⟨e, hhand, hroom, (Option.some.inj h).symm⟩
  · cases h

/-- The second task serves the oldest event passed on. -/
theorem step_handle {self next : Relay E A B}
    (h : step track serve capacity self .handle = some next) :
    ∃ e second, self.second = e :: second ∧
      next = { self with second, served := serve self.served e } := by
  simp only [step] at h
  split at h
  · rename_i e second hsecond
    exact ⟨e, second, hsecond, (Option.some.inj h).symm⟩
  · cases h

/-! ## The settled states

A fold over what is still under way, in the order it will be handled. `step_settled` is
the reason for the definition: the steps of the tasks cannot be told apart at this
level, so that an interleaving of emissions and steps is as good as the emissions alone. -/

variable (track serve)

/-- The first task's state once it has taken everything emitted. -/
def settled_tracked (self : Relay E A B) : A := self.first.foldl track self.tracked

/-- The second task's state once it has served everything emitted. -/
def settled_served (self : Relay E A B) : B :=
  (self.second ++ self.hand.toList ++ self.first).foldl serve self.served

/-- Everything emitted has been served. -/
def Drained (self : Relay E A B) : Prop := self.first = [] ∧ self.hand = none ∧ self.second = []

/-- With nothing under way the settled states are the states. -/
@[simp] theorem settled_tracked_new (a : A) (b : B) : (new a b).settled_tracked track = a := rfl

/-- The same of the second task. -/
@[simp] theorem settled_served_new (a : A) (b : B) : (new a b).settled_served serve = b := rfl

/-- Once everything is handled both tasks are at their settled states. -/
theorem Drained.settled {self : Relay E A B} (h : self.Drained) :
    self.settled_tracked track = self.tracked ∧ self.settled_served serve = self.served := by
  obtain ⟨hfirst, hhand, hsecond⟩ := h
  simp [settled_tracked, settled_served, hfirst, hhand, hsecond]

/-- An event that is emitted will be noted and served after all others. -/
theorem emit_settled {capacity : Nat} {self next : Relay E A B} {e : E}
    (h : self.emit capacity e = some next) :
    next.settled_tracked track = track (self.settled_tracked track) e ∧
      next.settled_served serve = serve (self.settled_served serve) e := by
  obtain ⟨-, rfl⟩ := emit_eq_some h
  constructor
  · simp [settled_tracked]
  · simp [settled_served]

variable {track serve}

/-- The tasks only bring themselves up to date. -/
theorem step_settled {self next : Relay E A B} {a : RelayStep}
    (h : step track serve capacity self a = some next) :
    next.settled_tracked track = self.settled_tracked track ∧
      next.settled_served serve = self.settled_served serve := by
  cases a with
  | take =>
      obtain ⟨e, first, hfirst, hhand, rfl⟩ := step_take h
      simp [settled_tracked, settled_served, hfirst, hhand]
  | forward =>
      obtain ⟨e, hhand, -, rfl⟩ := step_forward h
      simp [settled_tracked, settled_served, hhand]
  | handle =>
      obtain ⟨e, second, hsecond, rfl⟩ := step_handle h
      simp [settled_tracked, settled_served, hsecond]

/-- However long the tasks run, the settled states stay: by `step_settled` and the
invariant rule. -/
theorem exec_settled {self last : Relay E A B} {steps : List RelayStep}
    (h : exec (step track serve capacity) self steps = some last) :
    last.settled_tracked track = self.settled_tracked track ∧
      last.settled_served serve = self.settled_served serve := by
  refine exec_invariant (step track serve capacity)
    (fun r => r.settled_tracked track = self.settled_tracked track ∧
      r.settled_served serve = self.settled_served serve) self last steps ⟨rfl, rfl⟩ ?_ h
  rintro m n a - ⟨htracked, hserved⟩ hstep
  obtain ⟨htracked', hserved'⟩ := step_settled hstep
  exact ⟨htracked'.trans htracked, hserved'.trans hserved⟩

/-- How far each event still has to go. -/
def distance (self : Relay E A B) : Nat :=
  3 * self.first.length + 2 * self.hand.toList.length + self.second.length

/-- Some task can always go on. -/
theorem step_progress (hroom : 0 < capacity) (self : Relay E A B) (h : ¬ self.Drained) :
    ∃ a next, step track serve capacity self a = some next ∧ next.distance < self.distance := by
  obtain ⟨first, tracked, hand, second, served⟩ := self
  -- the last stage that holds something can move, as nothing stands in front of it
  cases second with
  | cons e second =>
      refine ⟨.handle, _, rfl, ?_⟩
      simp only [distance, List.length_cons]
      omega
  | nil =>
      cases hand with
      | some e =>
          refine ⟨.forward, _, if_pos hroom, ?_⟩
          simp [distance]
      | none =>
          cases first with
          | cons e first =>
              refine ⟨.take, _, rfl, ?_⟩
              simp only [distance, List.length_cons, Option.toList, List.length_nil]
              omega
          | nil => exact absurd ⟨rfl, rfl, rfl⟩ h

/-- The relay can be drained from any state. -/
theorem exists_drain (hroom : 0 < capacity) (self : Relay E A B) :
    ∃ steps last, exec (step track serve capacity) self steps = some last ∧ last.Drained :=
  exec_reaches _ distance Drained (step_progress hroom) self

variable (track serve capacity)

/-- **Once drained.** However the tasks get there, what holds when everything
emitted is handled is what holds of the settled states. -/
theorem once_drained_iff (hroom : 0 < capacity) (p : A → B → Prop) (self : Relay E A B) :
    (∀ steps last, exec (step track serve capacity) self steps = some last → last.Drained →
        p last.tracked last.served) ↔
      p (self.settled_tracked track) (self.settled_served serve) := by
  constructor
  · intro h
    obtain ⟨steps, last, hrun, hlast⟩ := exists_drain hroom self
    obtain ⟨htracked, hserved⟩ := exec_settled hrun
    obtain ⟨htracked', hserved'⟩ := hlast.settled track serve
    rw [← htracked, ← hserved, htracked', hserved']
    exact h steps last hrun hlast
  · intro hp steps last hrun hlast
    obtain ⟨htracked, hserved⟩ := exec_settled hrun
    obtain ⟨htracked', hserved'⟩ := hlast.settled track serve
    rw [← htracked', ← hserved', htracked, hserved]
    exact hp

end Relay

end InputSync
