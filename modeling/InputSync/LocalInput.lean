/-
What is typed while control is local stays on this machine.

Two sessions receive events that differ only where nobody but this machine
should notice: at a moment when the route is local, in which key, button or
wheel it is. The router keeps state over the whole session (the route, the
last point, the modifiers to ship with the next crossing, `last_mouse`), so
the comparison is of whole runs: the two stay equal up to the event the drain
loop holds in its hands (`SameUpToEvent`), and that one is dropped.
-/
import InputSync.SessionTasks

set_option autoImplicit false

namespace InputSync

/-! ## Events that look the same from outside

Which key it is must not show. Its modifiers may, since the snapshot is shipped with the
next crossing by design. -/

/-- A click or a turn of the wheel. -/
def MouseEvent.StaysPut : MouseEvent → Prop
  | .Button _ _ | .Scroll _ => True
  | .Move _ _ | .MoveRelative _ _ => False

/-- `Unseen e e'`: what differs between the two is nobody else's business. It is
the key, its state or its character, under the same modifiers and as little an
emergency; or which button and how far a wheel. -/
inductive Unseen : InputEvent → InputEvent → Prop
  | key (k k' : KeyEvent) : k'.modifiers = k.modifiers →
      is_emergency (.Key k') = is_emergency (.Key k) → Unseen (.Key k) (.Key k')
  | mouse (e e' : MouseEvent) : e.StaysPut → e'.StaysPut → Unseen (.Mouse e) (.Mouse e')

namespace Unseen

variable {e e' : InputEvent}

/-- Two events that look the same from outside are the hotkey together or not at all, -/
theorem emergency (h : Unseen e e') : is_emergency e' = is_emergency e := by
  cases h with
  | key k k' hmods hem => exact hem
  | mouse m m' hm hm' => rfl

/-- and neither is a move, so neither can cross. -/
theorem not_move (h : Unseen e e') (x y : Int32) :
    e ≠ .Mouse (.Move x y) ∧ e' ≠ .Mouse (.Move x y) := by
  cases h with
  | key k k' hmods hem => exact ⟨InputEvent.noConfusion, InputEvent.noConfusion⟩
  | mouse m m' hm hm' =>
      constructor
      · rintro ⟨⟩
        exact hm
      · rintro ⟨⟩
        exact hm'

/-- The detector keeps the modifiers of a key and nothing else. -/
theorem note_modifiers (h : Unseen e e') (edge : EdgeDetector) :
    edge.note_modifiers e' = edge.note_modifiers e := by
  cases h with
  | key k k' hmods hem => simp only [EdgeDetector.note_modifiers, hmods]
  | mouse m m' hm hm' => rfl

/-- So the detector does the same with both. It decides by the position and keeps the
modifiers, and these agree. -/
theorem observe (h : Unseen e e') (edge : EdgeDetector) : edge.observe e' = edge.observe e := by
  rw [edge.observe_not_move e (fun x y => (h.not_move x y).1),
    edge.observe_not_move e' (fun x y => (h.not_move x y).2), h.note_modifiers]

/-- Neither of the two is forwarded or leaves a position behind. -/
theorem forward_local (h : Unseen e e') (server : Server) (accepts : Message → Bool) :
    server.forward e .Local accepts = (server, []) ∧
      server.forward e' .Local accepts = (server, []) := by
  cases h with
  | key k k' hmods hem => exact ⟨rfl, rfl⟩
  | mouse m m' hm hm' =>
      constructor
      · cases m with
        | Move x y | MoveRelative x y => exact hm.elim
        | Button b state | Scroll delta => rfl
      · cases m' with
        | Move x y | MoveRelative x y => exact hm'.elim
        | Button b state | Scroll delta => rfl

end Unseen

/-! ## Two sessions side by side

A two-run property, proved by a relation between the states that every pair of steps
keeps. -/

/-- The drain loop at the same point, with events in hand that are equal, or
that stay local and differ unseen. -/
inductive SameDrain : DrainPc → DrainPc → Prop
  | same (pc : DrainPc) : SameDrain pc pc
  | decided (decision : RouteDecision) (e e' : InputEvent) : Unseen e e' →
      SameDrain (.decided decision (some (e, .Local))) (.decided decision (some (e', .Local)))
  | acting (actions : List Action) (e e' : InputEvent) : Unseen e e' →
      SameDrain (.acting actions (some (e, .Local))) (.acting actions (some (e', .Local)))

namespace Tasks

/-- The two sessions agree on everything but the event in hand. -/
structure SameUpToEvent (s t : Tasks) : Prop where
  server : t.server = s.server
  drain : SameDrain s.drain t.drain
  handler : t.handler = s.handler
  actions : t.actions = s.actions

/-- A session is like itself. -/
theorem SameUpToEvent.refl (self : Tasks) : self.SameUpToEvent self :=
  ⟨rfl, .same _, rfl, rfl⟩

/-- Steps that agree, or receive events that differ unseen while the route is
local. -/
def SameButLocal (self : Tasks) (a b : TaskStep) : Prop :=
  a = b ∨ self.server.edge.route = .Local ∧
    ∃ e e', a = .recv e ∧ b = .recv e' ∧ Unseen e e'

/-- The decision that waits to be applied. -/
def decision (self : Tasks) : Option RouteDecision :=
  match self.drain with
  | .decided decision _ => some decision
  | _ => none

/-- What is in hand waits behind its decision, and the decisions agree. -/
theorem SameUpToEvent.decision {self other : Tasks} (h : self.SameUpToEvent other) :
    other.decision = self.decision := by
  have hdrain := h.drain
  unfold Tasks.decision
  generalize self.drain = pc at hdrain ⊢
  generalize other.drain = pc' at hdrain ⊢
  cases hdrain <;> rfl

/-- Receiving different events unseen: the same decision, the same state. -/
theorem recv_unseen {self other next : Tasks} {e e' : InputEvent}
    (hlocal : self.server.edge.route = .Local) (hsame : self.SameUpToEvent other)
    (he : Unseen e e') (h : self.step (.recv e) = some next) :
    ∃ next', other.step (.recv e') = some next' ∧ next.SameUpToEvent next' := by
  obtain ⟨server, drain, handler, actions⟩ := self
  obtain ⟨server', drain', handler', actions'⟩ := other
  obtain ⟨hserver, hdrain, hhandler, hactions⟩ := hsame
  dsimp only at hserver hdrain hhandler hactions hlocal
  subst hserver hhandler hactions
  cases hdrain with
  | decided decision d d' hd => simp [step] at h
  | acting pending d d' hd => simp [step] at h
  | same pc =>
      cases drain with
      | decided decision after => simp [step] at h
      | acting pending after => simp [step] at h
      | recv =>
          -- unseen events are no moves, and under a local route only a move is decided
          -- about
          have hrest := server'.edge.observe_not_move e (fun x y => (he.not_move x y).1)
          rw [hlocal] at hrest
          -- the emergency does not depend on which of the two events it was
          by_cases hem : is_emergency e = true
          · simp only [step, if_pos hem, Option.some.injEq] at h
            subst h
            refine ⟨_, by simp only [step, if_pos (he.emergency ▸ hem)], .refl _⟩
          · simp only [step, if_neg hem, Option.some.injEq] at h
            subst h
            refine ⟨{ server := { server' with edge := (server'.edge.observe e).1 },
                      drain := .decided (server'.edge.observe e).2.1
                        (some (e', (server'.edge.observe e).2.2)),
                      handler := handler', actions := actions' }, ?_, rfl, ?_, rfl, rfl⟩
            · simp only [step, if_neg (he.emergency ▸ hem), he.observe]
            · simp only [hrest]
              exact .decided .Stay e e' he

/-- A step of both that is the same. -/
theorem step_same {self other next : Tasks} {a : TaskStep} (hsame : self.SameUpToEvent other)
    (h : self.step a = some next) :
    ∃ next', other.step a = some next' ∧ next.SameUpToEvent next' := by
  obtain ⟨server, drain, handler, actions⟩ := self
  obtain ⟨server', drain', handler', actions'⟩ := other
  obtain ⟨hserver, hdrain, hhandler, hactions⟩ := hsame
  dsimp only at hserver hdrain hhandler hactions
  subst hserver hhandler hactions
  cases hdrain with
  | same pc => exact ⟨next, h, .refl next⟩
  | decided decision e e' he =>
      cases a with
      | recv event | act | finish accepts => simp [step] at h
      | lock_peers accepts =>
          simp only [step, Option.some.injEq] at h
          subst h
          exact ⟨_, rfl, rfl, .acting _ e e' he, rfl, rfl⟩
      | connected handle | set_auto | disconnected peer_id | check_empty | clear_auto =>
          cases handler' <;> simp only [step, reduceCtorEq, Option.some.injEq] at h
          subst h
          exact ⟨_, rfl, rfl, .decided decision e e' he, rfl, rfl⟩
  | acting pending e e' he =>
      cases a with
      | recv event | lock_peers accepts => simp [step] at h
      | act =>
          cases pending with
          | nil => simp [step] at h
          | cons b rest =>
              simp only [step, Option.some.injEq] at h
              subst h
              exact ⟨_, rfl, rfl, .acting rest e e' he, rfl, rfl⟩
      | finish accepts =>
          cases pending with
          | cons b rest => simp [step] at h
          | nil =>
              -- the event in hand goes nowhere
              obtain ⟨hf, hf'⟩ := he.forward_local server' accepts
              simp only [step, hf, Option.some.injEq] at h
              subst h
              exact ⟨_, by simp only [step, hf'], .refl _⟩
      | connected handle | set_auto | disconnected peer_id | check_empty | clear_auto =>
          cases handler' <;> simp only [step, reduceCtorEq, Option.some.injEq] at h
          subst h
          exact ⟨_, rfl, rfl, .acting pending e e' he, rfl, rfl⟩

/-- **What is typed locally stays here.** Two runs of the session's tasks that
receive the same except for events that differ unseen while the route is
local: after any number of steps they have made the same decision and sent the
same messages. -/
theorem typed_locally_stays (local_screen : ScreenId) (w h : Int32) (layout : ScreenLayout)
    (steps steps' : List TaskStep)
    (hbeside : Beside step SameButLocal (new local_screen w h layout) steps steps')
    (n : Nat) (t : Tasks) (ht : exec step (new local_screen w h layout) (steps.take n) = some t) :
    ∃ t', exec step (new local_screen w h layout) (steps'.take n) = some t' ∧
      t'.decision = t.decision ∧ t'.actions = t.actions := by
  have hstep : ∀ s u m a b, SameUpToEvent s u → SameButLocal s a b → step s a = some m →
      ∃ v, step u b = some v ∧ SameUpToEvent m v := by
    rintro s u m a b hsu (rfl | ⟨hlocal, e, e', rfl, rfl, he⟩) hm
    · exact step_same hsu hm
    · exact recv_unseen hlocal hsu he hm
  obtain ⟨t', ht', hsame⟩ := exec_beside step SameUpToEvent SameButLocal hstep _ _ t _ _
    (.refl _) (hbeside.take step n) ht
  exact ⟨t', ht', hsame.decision, hsame.actions⟩

/-- Key A locally against key B. -/
theorem typed_locally_stays_key :
    let a : InputEvent := .Key ⟨.A, .Pressed, .empty, some 97⟩
    let b : InputEvent := .Key ⟨.B, .Pressed, .empty, some 98⟩
    ∃ t t',
      exec step (new ⟨0⟩ 1920 1080 .default)
        [.recv a, .lock_peers (fun _ => true), .finish (fun _ => true)] = some t ∧
      exec step (new ⟨0⟩ 1920 1080 .default)
        [.recv b, .lock_peers (fun _ => true), .finish (fun _ => true)] = some t' ∧
      t'.decision = t.decision ∧ t'.actions = t.actions := by
  intro a b
  refine ⟨_, (typed_locally_stays ⟨0⟩ 1920 1080 .default
    [.recv a, .lock_peers (fun _ => true), .finish (fun _ => true)]
    [.recv b, .lock_peers (fun _ => true), .finish (fun _ => true)] ?_ 3 _ rfl).imp
      fun t' ht' => ⟨rfl, ht'⟩⟩
  refine ⟨.inr ⟨rfl, a, b, rfl, rfl, .key _ _ rfl rfl⟩, fun m _ => ⟨.inl rfl, fun m _ => ?_⟩⟩
  exact ⟨.inl rfl, fun m _ => trivial⟩

end Tasks

end InputSync
