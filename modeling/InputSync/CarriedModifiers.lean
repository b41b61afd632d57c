/-
The modifiers a crossing carries: from the drain thread's snapshot, through
the capture gate and the sink, to the `ScreenEnter` the peer is sent.

Two components keep the modifier state. The drain thread's snapshot follows
every key; the edge detector's copy follows the key events that reach it, and
those are the ones taken while capturing. An item in the sink therefore
carries two marks that the code does not have: the snapshot when the drain
thread handled it, and the snapshot of the last key event let through by
then. The detector's copy at a crossing is the second mark
(`detector_carries`), so what is sent is current exactly when the two marks
agree (`carried_modifiers_iff`).
-/
import InputSync.Capture
import InputSync.SessionTasks

set_option autoImplicit false

namespace InputSync

/-! ## The pipeline

Three stages with a queue between the last two, and a flag that the last stage sets and
the first one reads. -/

/-- The snapshot the detector is left with by an event that reaches the
session: a key event's own, except that the emergency combination is not
observed. -/
def carried (m : ModifierState) (event : InputEvent) : ModifierState :=
  match event with
  | .Key k => if is_emergency event then m else k.modifiers
  | _ => m

/-- An event in the sink, with the marks. -/
structure SinkItem where
  event : InputEvent
  snapshot : ModifierState
  passed : ModifierState

/-- The drain thread, the sink and the tasks of the session. -/
structure Pipeline where
  mods : ModifierState
  passed : ModifierState
  sink : List SinkItem
  tasks : Tasks

/-- The steps of the three threads. -/
inductive PipelineStep
  -- drain_thread_main takes a raw event
  | raw (raw : RawEvent)
  -- drain_capture takes an event from the sink
  | take
  -- any other step of the session's tasks
  | task (a : TaskStep)

/-- The step of `drain_capture` that takes an event. -/
def TaskStep.takes_event : TaskStep → Bool
  | .recv _ => true
  | _ => false

namespace Pipeline

def new (local_screen : ScreenId) (w h : Int32) (layout : ScreenLayout) : Pipeline :=
  { mods := .empty, passed := .empty, sink := [], tasks := .new local_screen w h layout }

/-- A step of one thread. The drain thread reads the flag behind
`set_capturing`; `drain_capture` takes the head of the sink. -/
def step (self : Pipeline) : PipelineStep → Option Pipeline
  | .raw raw =>
    let r := drain_raw self.mods self.tasks.server.capturing raw
    match r.2 with
    | none => some { self with mods := r.1 }
    | some event =>
      let passed := carried self.passed event
      some { self with
        mods := r.1
        passed := passed
        sink := self.sink ++ [⟨event, r.1, passed⟩] }
  | .take =>
    match self.sink with
    | [] => none
    | item :: sink =>
      (self.tasks.step (.recv item.event)).map (fun tasks =>
        { self with sink := sink, tasks := tasks })
  | .task a =>
    if a.takes_event then none
    else (self.tasks.step a).map (fun tasks => { self with tasks := tasks })

/-! ## What a step can do

One inversion lemma for each kind of step. -/

/-- The item a raw event becomes. -/
def item_of (self : Pipeline) (raw : RawEvent) : SinkItem :=
  let event := raw.to_input (raw.note self.mods)
  ⟨event, raw.note self.mods, carried self.passed event⟩

/-- A raw event is noted in the snapshot in any case, and passed to the sink only while
capturing. This is the gate. -/
theorem step_raw {self next : Pipeline} {raw : RawEvent} (h : self.step (.raw raw) = some next) :
    (self.tasks.server.capturing = false ∧ next = { self with mods := raw.note self.mods }) ∨
      next = { self with
        mods := raw.note self.mods
        passed := (self.item_of raw).passed
        sink := self.sink ++ [self.item_of raw] } := by
  cases hout : (drain_raw self.mods self.tasks.server.capturing raw).2 with
  | none =>
      simp only [step, hout, drain_raw_mods, Option.some.injEq] at h
      refine .inl ⟨?_, h.symm⟩
      by_contra hcap
      simp [drain_raw, hcap] at hout
  | some event =>
      simp only [step, hout, drain_raw_mods, Option.some.injEq] at h
      obtain rfl := drain_raw_event _ _ _ _ hout
      exact .inr h.symm

/-- `drain_capture` takes the oldest item, whose event its detector then observes. -/
theorem step_take {self next : Pipeline} (h : self.step .take = some next) :
    ∃ item sink tasks, self.sink = item :: sink ∧
      self.tasks.step (.recv item.event) = some tasks ∧
      next = { self with sink := sink, tasks := tasks } := by
  cases hsink : self.sink with
  | nil => simp [step, hsink] at h
  | cons item sink =>
      simp only [step, hsink] at h
      obtain ⟨tasks, htasks, rfl⟩ := Option.map_eq_some_iff.mp h
      exact ⟨item, sink, tasks, rfl, htasks, rfl⟩

/-- The other steps of the session leave snapshot and sink alone. -/
theorem step_task {self next : Pipeline} {a : TaskStep} (h : self.step (.task a) = some next) :
    a.takes_event = false ∧ ∃ tasks, self.tasks.step a = some tasks ∧
      next = { self with tasks := tasks } := by
  simp only [step] at h
  split_ifs at h with ha
  obtain ⟨tasks, htasks, rfl⟩ := Option.map_eq_some_iff.mp h
  exact ⟨by simpa using ha, tasks, htasks, rfl⟩

/-! ## The detector's copy

The copy is only ever set by an event that reaches the detector. Following the marks
through the sink says which event that was. -/

/-- What the drain thread makes of a raw event is never a resync. -/
theorem to_input_not_sync (raw : RawEvent) (m n : ModifierState) :
    raw.to_input m ≠ .ModifierSync n := by
  cases raw <;> exact InputEvent.noConfusion

/-- Taking an event leaves the detector with what the event carries. -/
theorem recv_modifiers {self next : Tasks} {event : InputEvent}
    (hsync : ∀ m, event ≠ .ModifierSync m) (h : self.step (.recv event) = some next) :
    next.server.edge.modifiers = carried self.server.edge.modifiers event := by
  rcases Tasks.step_recv h with ⟨hem, rfl⟩ | ⟨hem, rfl⟩
  · -- the emergency combination is a key and is not observed
    have hforce : self.server.edge.force_local.1.modifiers = self.server.edge.modifiers := by
      unfold EdgeDetector.force_local
      split <;> rfl
    cases event with
    | Key k => simp only [carried, hem, if_true, hforce]
    | Mouse m => exact hforce
    | ScreenEnter x y m => exact hforce
    | ScreenLeave s => exact hforce
    | ModifierSync m => exact absurd rfl (hsync m)
  · rw [self.server.edge.observe_modifiers event]
    cases event with
    | Key k => simp only [carried, hem, EdgeDetector.note_modifiers]; rfl
    | Mouse m => rfl
    | ScreenEnter x y m => rfl
    | ScreenLeave s => rfl
    | ModifierSync m => exact absurd rfl (hsync m)

/-- No other step touches it. -/
theorem task_modifiers {self next : Tasks} {a : TaskStep} (ha : a.takes_event = false)
    (h : self.step a = some next) :
    next.server.edge.modifiers = self.server.edge.modifiers := by
  cases a with
  | recv event => cases ha
  | lock_peers accepts =>
      obtain ⟨decision, after, -, rfl⟩ := Tasks.step_lock_peers h
      rfl
  | act =>
      obtain ⟨b, rest, after, -, rfl⟩ := Tasks.step_act h
      rfl
  | finish accepts =>
      obtain ⟨-, hedge, -⟩ := Tasks.step_finish h
      rw [hedge]
  | connected handle | set_auto | disconnected peer_id | check_empty | clear_auto =>
      obtain ⟨peers, auto_peer, handler, rfl⟩ := Tasks.step_handler rfl h
      rfl

/-- From the detector's copy, each item carries the mark it is labelled with,
and the last one the drain thread's. -/
def Carries : ModifierState → List SinkItem → ModifierState → Prop
  | m, [], passed => m = passed
  | m, item :: sink, passed =>
    (∀ n, item.event ≠ .ModifierSync n) ∧ item.passed = carried m item.event ∧
      Carries item.passed sink passed

/-- A new item carries the mark of what was let through before it, or its own if it is a
key. -/
theorem carries_concat (m : ModifierState) (sink : List SinkItem) (passed : ModifierState)
    (item : SinkItem) (h : Carries m sink passed) (hsync : ∀ n, item.event ≠ .ModifierSync n)
    (hitem : item.passed = carried passed item.event) :
    Carries m (sink ++ [item]) item.passed := by
  induction sink generalizing m with
  | nil =>
      unfold Carries at h
      subst h
      exact ⟨hsync, hitem, rfl⟩
  | cons first sink ih =>
      obtain ⟨hfirst, hpassed, hrest⟩ := h
      exact ⟨hfirst, hpassed, ih _ hrest⟩

/-- **The detector's copy follows what was let through.** -/
def DetectorCarries (self : Pipeline) : Prop :=
  Carries self.tasks.server.edge.modifiers self.sink self.passed

/-- Every step keeps that. The two ends of the sink move separately: an item is appended
with its mark, or taken with the detector following it. -/
theorem step_detectorCarries (self next : Pipeline) (a : PipelineStep)
    (hinv : self.DetectorCarries) (h : self.step a = some next) : next.DetectorCarries := by
  cases a with
  -- the hook only appends an item, and what it appends carries its own snapshot
  | raw raw =>
      rcases step_raw h with ⟨-, rfl⟩ | rfl
      · exact hinv
      · apply carries_concat _ _ _ _ hinv
        · intro n
          exact to_input_not_sync raw _ n
        · rfl
  -- the drain thread moves the first item to the session, and both sides of the
  -- equation move with it
  | take =>
      obtain ⟨item, sink, tasks, hsink, htasks, rfl⟩ := step_take h
      unfold DetectorCarries at hinv ⊢
      rw [hsink] at hinv
      obtain ⟨hsync, hpassed, hrest⟩ := hinv
      rw [recv_modifiers hsync htasks, ← hpassed]
      exact hrest
  | task a =>
      obtain ⟨ha, tasks, htasks, rfl⟩ := step_task h
      unfold DetectorCarries at hinv ⊢
      rw [task_modifiers ha htasks]
      exact hinv

/-- So it holds along every run. -/
theorem detector_carries (local_screen : ScreenId) (w h : Int32) (layout : ScreenLayout)
    (steps : List PipelineStep) (s : Pipeline)
    (hrun : exec step (new local_screen w h layout) steps = some s) : s.DetectorCarries :=
  exec_invariant step DetectorCarries (new local_screen w h layout) s steps rfl
    (fun m n a _ hinv hstep => m.step_detectorCarries n a hinv hstep) hrun

/-! ## What the peer is sent

The copy at the crossing is what is sent, so the comparison of the marks at that moment
decides. -/

/-- The four modifiers a crossing is about. -/
def SameModifiers (m n : ModifierState) : Prop :=
  ∀ flag ∈ [ModifierState.SHIFT, .CTRL, .ALT, .SUPER], m.contains flag = n.contains flag

/-- A decision leads to a `ScreenEnter` with these modifiers. -/
def Ships (decision : RouteDecision) (m : ModifierState) : Prop :=
  ∃ peers accepts p x y, Action.send p (.ScreenEnter x y m) ∈ apply_decision decision peers accepts

/-- A crossing sends the modifiers of its decision, whoever the peers are. -/
theorem ships_enter (screen : ScreenId) (entry warp : Point) (m n : ModifierState) :
    Ships (.EnterRemote screen entry warp m) n ↔ n = m := by
  constructor
  · rintro ⟨peers, accepts, p, x, y, hmem⟩
    simp only [apply_decision, List.mem_append, List.mem_cons, reduceCtorEq, List.not_mem_nil,
      or_false] at hmem
    have hmsg := mem_enqueue _ _ _ _ _ hmem
    cases hmsg
    rfl
  · rintro rfl
    refine ⟨[⟨⟨Vector.replicate 16 0⟩, 0⟩], fun _ => true, ⟨⟨Vector.replicate 16 0⟩, 0⟩, entry.x,
      entry.y, ?_⟩
    simp [apply_decision, enqueue]

/-- **When a crossing carries the current modifiers.** In any run, whenever the
next event makes the detector enter a screen: the `ScreenEnter` has the Shift,
Ctrl, Alt and Super of the drain thread's snapshot at that move exactly when
these are in the snapshot as they were after the last key event that was let
through. -/
theorem carried_modifiers_iff (local_screen : ScreenId) (w h : Int32) (layout : ScreenLayout)
    (steps : List PipelineStep) (s : Pipeline)
    (hrun : exec step (new local_screen w h layout) steps = some s) (item : SinkItem)
    (sink : List SinkItem) (hsink : s.sink = item :: sink) (screen : ScreenId)
    (entry warp : Point) (m : ModifierState)
    (henter : (s.tasks.server.edge.observe item.event).2.1 = .EnterRemote screen entry warp m) :
    (∀ n, Ships (s.tasks.server.edge.observe item.event).2.1 n → SameModifiers n item.snapshot) ↔
      SameModifiers item.passed item.snapshot := by
  obtain ⟨hm, x, y, hmove⟩ := s.tasks.server.edge.observe_enter item.event screen entry warp m henter
  -- a move leaves the copy alone, so what is shipped is the item's mark
  have hpassed : item.passed = m := by
    have hinv := detector_carries local_screen w h layout steps s hrun
    unfold DetectorCarries at hinv
    rw [hsink] at hinv
    rw [hinv.2.1, hm, hmove]
    rfl
  rw [henter, hpassed]
  constructor
  · intro hships
    exact hships m ((ships_enter screen entry warp m m).mpr rfl)
  · intro hsame n hn
    rw [(ships_enter screen entry warp m n).mp hn]
    exact hsame

/-- A peer connects. -/
def peer_connects : List PipelineStep :=
  [.task (.connected ⟨⟨Vector.replicate 16 7⟩, 0⟩), .task .set_auto]

/-- A crossing that carries what is held: Ctrl, Alt and Shift are pressed while the
peer is in control, Escape with them brings control back, and the next move crosses
with all three still down. -/
theorem carried_modifiers_iff_held :
    let crosses : List PipelineStep :=
      [.raw (.MouseMove 0 300), .take, .task (.lock_peers (fun _ => true)), .task .act,
        .task .act, .task .act, .task (.finish (fun _ => true))]
    let forwards : List PipelineStep :=
      [.take, .task (.lock_peers (fun _ => true)), .task (.finish (fun _ => true))]
    let escapes : List PipelineStep :=
      [.raw (.KeyDown 0x1B 0), .take, .task (.lock_peers (fun _ => true)), .task .act,
        .task .act, .task .act, .task (.finish (fun _ => true))]
    let steps := peer_connects ++ crosses ++ .raw (.KeyDown 0xA2 0) :: forwards ++
      .raw (.KeyDown 0xA4 0) :: forwards ++ .raw (.KeyDown 0xA0 0) :: forwards ++ escapes ++
      [.raw (.MouseMove 0 300)]
    let held := (ModifierState.CTRL.insert .ALT).insert .SHIFT
    ∃ s, exec step (new ⟨0⟩ 1920 1080 .default) steps = some s ∧
      s.sink = [⟨.Mouse (.Move 0 300), held, held⟩] ∧
      ∀ n, Ships (s.tasks.server.edge.observe (.Mouse (.Move 0 300))).2.1 n →
        SameModifiers n held := by
  intro crosses forwards escapes steps held
  have hrun : (exec step (new ⟨0⟩ 1920 1080 .default) steps).isSome := by decide +kernel
  have hsome := (Option.some_get hrun).symm
  have hiff := carried_modifiers_iff ⟨0⟩ 1920 1080 .default steps _ hsome
    ⟨.Mouse (.Move 0 300), held, held⟩ [] rfl ⟨1⟩ _ _ _ rfl
  exact ⟨_, hsome, rfl, hiff.mpr (fun _ _ => rfl)⟩

/-- **A modifier left behind.** Ctrl is pressed on the local machine and held
over the edge: the drain thread has it, the peer is told that nothing is
held. -/
theorem held_modifier_not_carried :
    ∃ s item sink screen entry warp m,
      exec step (new ⟨0⟩ 1920 1080 .default)
          (peer_connects ++ [.raw (.KeyDown 0xA2 0), .raw (.MouseMove 0 300)]) = some s ∧
        s.sink = item :: sink ∧
        (s.tasks.server.edge.observe item.event).2.1 = .EnterRemote screen entry warp m ∧
        ¬ ∀ n, Ships (s.tasks.server.edge.observe item.event).2.1 n →
          SameModifiers n item.snapshot := by
  refine ⟨_, ⟨.Mouse (.Move 0 300), .CTRL, .empty⟩, [], ⟨1⟩, ⟨32000, 300⟩, ⟨2, 540⟩, .empty, rfl,
    rfl, rfl, ?_⟩
  intro hall
  have hctrl := hall .empty ((ships_enter _ _ _ _ _).mpr rfl) .CTRL (by decide)
  revert hctrl
  decide

/-! ## What the gate keeps back

A sufficient condition on the events before the crossing. -/

/-- The gate keeps back no event that changes one of the four. -/
def KeepsNone (self : Pipeline) : PipelineStep → Prop
  | .raw raw => self.tasks.server.capturing = false → SameModifiers (raw.note self.mods) self.mods
  | _ => True

/-- Every mark is current. -/
def Current (self : Pipeline) : Prop :=
  SameModifiers self.passed self.mods ∧ ∀ item ∈ self.sink, SameModifiers item.passed item.snapshot

/-- An event that is let through leaves a current mark: a key event its own,
and the emergency combination is no modifier key. -/
theorem item_of_current (self : Pipeline) (raw : RawEvent)
    (h : SameModifiers self.passed self.mods) :
    SameModifiers (self.item_of raw).passed (raw.note self.mods) := by
  have hkey : ∀ (k : KeyEvent) (vk : UInt32) (down : Bool), raw.key = some (vk, down) →
      k.code = vk_to_keycode vk.toUInt16 → k.modifiers = raw.note self.mods →
      SameModifiers (carried self.passed (.Key k)) (raw.note self.mods) := by
    intro k vk down hraw hcode hmods
    unfold carried
    dsimp only
    split_ifs with hem
    -- only Escape can be the emergency, and Escape is no modifier key
    · have hesc : vk.toUInt16 = 0x1B := by
        apply vk_of_escape
        rw [← hcode]
        simp only [is_emergency, Bool.and_eq_true, beq_iff_eq] at hem
        exact hem.1.1.1.2
      have hnote : raw.note self.mods = self.mods := by
        unfold RawEvent.note
        rw [hraw]
        simp [update_modifiers, hesc, modifier_flag]
      rw [hnote]
      exact h
    · rw [hmods]
      intro flag _
      rfl
  cases raw with
  | KeyDown vk scan => exact hkey _ vk true rfl rfl rfl
  | KeyUp vk scan => exact hkey _ vk false rfl rfl rfl
  | MouseMove x y => exact h
  | MouseButton button down => exact h
  | MouseScroll horizontal delta => exact h

/-- Where the gate keeps back no change, the snapshot and the last mark move together.
-/
theorem step_current (self next : Pipeline) (a : PipelineStep) (hinv : self.Current)
    (hkeeps : self.KeepsNone a) (h : self.step a = some next) : next.Current := by
  obtain ⟨hpassed, hsink⟩ := hinv
  cases a with
  | raw raw =>
      -- not captured, the event changes the keyboard only; captured, it carries the
      -- keyboard it was made with
      rcases step_raw h with ⟨hcap, rfl⟩ | rfl
      · refine ⟨?_, hsink⟩
        intro flag hflag
        rw [hpassed flag hflag, hkeeps hcap flag hflag]
      · have hitem := self.item_of_current raw hpassed
        refine ⟨hitem, ?_⟩
        intro item hmem
        rcases List.mem_append.mp hmem with hmem | hmem
        · exact hsink item hmem
        · rw [List.mem_singleton.mp hmem]
          exact hitem
  | take =>
      obtain ⟨item, sink, tasks, hcons, -, rfl⟩ := step_take h
      refine ⟨hpassed, ?_⟩
      intro it hit
      exact hsink it (by rw [hcons]; exact List.mem_cons_of_mem _ hit)
  | task a =>
      obtain ⟨-, tasks, -, rfl⟩ := step_task h
      exact ⟨hpassed, hsink⟩

/-- **Nothing kept back, everything current.** In a run in which the gate keeps
back no change of the four modifiers, every mark in every state is current,
and so by `carried_modifiers_iff` is every crossing. -/
theorem marks_current (local_screen : ScreenId) (w h : Int32) (layout : ScreenLayout)
    (steps : List PipelineStep) (hkeeps : Along step KeepsNone (new local_screen w h layout) steps)
    (pre suf : List PipelineStep) (t : Pipeline) (hsplit : steps = pre ++ suf)
    (ht : exec step (new local_screen w h layout) pre = some t) : t.Current := by
  apply along_invariant step KeepsNone Current _ (new local_screen w h layout) steps _ hkeeps pre suf
    t hsplit ht
  · intro m n a hcur hkeep hstep
    exact m.step_current n a hcur hkeep hstep
  · refine ⟨fun _ _ => rfl, ?_⟩
    intro item hitem
    cases hitem

end Pipeline

end InputSync
