/-
The daemon as the GUI runs it (`crates/gui/src/daemon.rs`, `main.rs`): the
supervisor that owns the child process, and the configuration file through
which the GUI tells it its role.

The daemon reads its role once, when it starts, so a role is changed by writing
the file and starting another child. Between the system calls of the GUI the
children do as they like: they read the file whole or half written, and they
exit. What the supervisor knows of its child it asks the operating system, and
that can fail; `strays` counts the children it has lost sight of.
-/
import InputSync.ConfigFile
import InputSync.Trace
import Mathlib.Data.List.Nodup
import Mathlib.Data.List.Perm.Subperm
import Mathlib.Logic.Function.Basic

set_option autoImplicit false

namespace InputSync

variable (machine : Machine)

/-! ## The operating system

Processes are numbered and never reused. What a daemon has read of its configuration is
kept with it. -/

/-- The daemons the GUI has started: which are alive, and what each has read of
the configuration. -/
structure Processes where
  alive : List Nat
  next_pid : Nat
  config : Nat → Option Config

namespace Processes

/-- Another daemon, with the next number. It has read nothing yet. -/
def spawn (self : Processes) : Processes :=
  { self with alive := self.alive ++ [self.next_pid], next_pid := self.next_pid + 1 }

/-- A process is gone: killed and waited for, or by itself. -/
def gone (self : Processes) (pid : Nat) : Processes :=
  { self with alive := self.alive.filter (fun p => p ≠ pid) }

end Processes

/-! ## The supervisor

The GUI's half. It holds at most one child, and forgets it as soon as it believes it
gone. -/

/-- Times are in nanoseconds. -/
structure DaemonSupervisor where
  child : Option Nat
  binary : Option String
  last_launch_attempt : Option Nat
deriving DecidableEq

namespace DaemonSupervisor

/-- `try_wait` says whether the child has exited, or it fails. -/
def is_running (self : DaemonSupervisor) (os : Processes) (try_wait_fails : Bool) : Bool :=
  match self.child with
  | some pid => if try_wait_fails then false else os.alive.contains pid
  | none => false

/-- What comes of a call, with the attempt to launch it made, if any. -/
structure Launched where
  supervisor : DaemonSupervisor
  os : Processes
  attempted : Bool
  result : Except String Unit

/-- `spawned` is the error of `spawn`, if it fails. -/
def ensure_running (self : DaemonSupervisor) (os : Processes) (now : Nat) (try_wait_fails : Bool)
    (spawned : Option String) : Launched :=
  if self.is_running os try_wait_fails then
    { supervisor := self, os, attempted := false, result := .ok () }
  else
    let self := { self with last_launch_attempt := some now }
    match self.binary, spawned with
    | none, _ =>
      { supervisor := self, os, attempted := true
        result := .error ("daemon binary not found — install InputSync or run from a build " ++
          "output dir") }
    | some bin, some e =>
      { supervisor := self, os, attempted := true, result := .error s!"spawn daemon at {bin}: {e}" }
    | some _, none =>
      { supervisor := { self with child := some os.next_pid }, os := os.spawn, attempted := true
        result := .ok () }

/-- Kills and reaps the child. The source drops what `kill` and `wait` return; both are
taken to succeed here, so a child that was stopped is gone. -/
def stop (self : DaemonSupervisor) (os : Processes) : DaemonSupervisor × Processes :=
  match self.child with
  | some pid => ({ self with child := none }, os.gone pid)
  | none => (self, os)

/-- `restart`: stop, then launch. -/
def restart (self : DaemonSupervisor) (os : Processes) (now : Nat) (spawned : Option String) :
    Launched :=
  let r := self.stop os
  r.1.ensure_running r.2 now false spawned

/-- It asks `is_running`, and `ensure_running` asks again. -/
def ensure_running_throttled (self : DaemonSupervisor) (os : Processes) (now : Nat)
    (cooldown_secs : Nat) (fails : Bool × Bool) (spawned : Option String) : Launched :=
  let idle : Launched := { supervisor := self, os, attempted := false, result := .ok () }
  if self.is_running os fails.1 then idle
  else
    match self.last_launch_attempt with
    | some last =>
      if (now - last) / 10 ^ 9 < cooldown_secs then idle
      else self.ensure_running os now fails.2 spawned
    | none => self.ensure_running os now fails.2 spawned

end DaemonSupervisor

/-! ## The GUI and what is around it

The GUI, the user and the daemons take turns in any order; a file is saved in several
steps. -/

/-- `apply_role_choice` on its way: the text to be written, and how much of it
is, once the file is created. -/
inductive GuiTask
  | idle
  | saving (cfg : Config) (text : List UInt8) (written : Option Nat)

/-- The GUI, the file and the daemons, with the launches so far (when, and
whether the GUI made them by itself) and the role that was applied last. -/
structure Launcher where
  closed : Bool
  task : GuiTask
  supervisor : DaemonSupervisor
  role_decided : Bool
  supervisor_error : Option String
  file : Option (List UInt8)
  os : Processes
  now : Nat
  launches : List (Nat × Bool)
  chosen : Option ServerRole

/-- What happens: time passes, the GUI draws a frame or answers a click, a system call
of it returns, or a daemon does something. -/
inductive LauncherStep
  | tick (ns : Nat)
  -- the GUI: the beginning of `update`, and what the user clicks
  | frame (fails : Bool × Bool × Bool) (spawned : Option String)
  | change_role
  | pick (role : ServerRole)
  | save_more (n : Nat)
  | save_fails (e : String)
  | saved (spawned : Option String)
  | restart_button (spawned : Option String)
  | close
  -- a daemon
  | loads (pid : Nat)
  | exits (pid : Nat)

namespace Launcher

/-- The GUI is started, with or without a configuration file. -/
def new (binary : Option String) (file : Option (List UInt8)) : Launcher :=
  { closed := false, task := .idle, supervisor := ⟨none, binary, none⟩, role_decided := file.isSome
    supervisor_error := none, file, os := ⟨[], 0, fun _ => none⟩, now := 0, launches := []
    chosen := none }

/-- The GUI waits for the user. -/
def ready (self : Launcher) : Bool :=
  match self.closed, self.task with
  | false, .idle => true
  | _, _ => false

/-- The GUI waits for the user when it is open and does nothing else. -/
theorem ready_iff (self : Launcher) :
    self.ready = true ↔ self.closed = false ∧ self.task = .idle := by
  unfold ready
  split
  · rename_i hclosed htask
    exact iff_of_true rfl ⟨hclosed, htask⟩
  · rename_i hother
    exact iff_of_false Bool.false_ne_true (fun h => hother h.1 h.2)

/-- After a launch, automatic or not. -/
def launch (self : Launcher) (automatic : Bool) (r : DaemonSupervisor.Launched) : Launcher :=
  { self with
    supervisor := r.supervisor
    os := r.os
    launches := if r.attempted then self.launches ++ [(self.now, automatic)] else self.launches }

/-- One step; `none` where it is not to be had. -/
def step (self : Launcher) : LauncherStep → Option Launcher
  | .tick ns => some { self with now := self.now + ns }
  | .frame fails spawned =>
    if self.ready ∧ self.role_decided then
      let r := self.supervisor.ensure_running_throttled self.os self.now 3 (fails.1, fails.2.1) spawned
      let next := self.launch true r
      match r.result with
      | .error e => some { next with supervisor_error := some e }
      | .ok () =>
        some { next with
          supervisor_error :=
            if next.supervisor.is_running next.os fails.2.2 then none else next.supervisor_error }
    else none
  | .change_role => if self.ready then some { self with role_decided := false } else none
  | .pick role =>
    if self.ready ∧ self.role_decided = false then
      let cfg := { Config.load_or_default machine self.file with role }
      match cfg.save_text machine with
      | none => some { self with supervisor_error := some "save config: toml serialize error" }
      | some text => some { self with task := .saving cfg text none }
    else none
  | .save_more n =>
    match self.task with
    | .saving cfg text none =>
      some { self with file := some [], task := .saving cfg text (some 0) }
    | .saving cfg text (some written) =>
      if written < text.length then
        some { self with
          file := some (text.take (written + (n + 1)))
          task := .saving cfg text (some (written + (n + 1))) }
      else none
    | .idle => none
  | .save_fails e =>
    match self.task with
    | .saving .. =>
      some { self with task := .idle, supervisor_error := some s!"save config: {e}" }
    | .idle => none
  | .saved spawned =>
    match self.task with
    | .saving cfg text (some written) =>
      if written < text.length then none
      else
        let r := self.supervisor.restart self.os self.now spawned
        let next := { self.launch false r with task := .idle }
        match r.result with
        | .ok () =>
          some { next with
            role_decided := true, supervisor_error := none, chosen := some cfg.role }
        | .error e => some { next with supervisor_error := some e }
    | _ => none
  | .restart_button spawned =>
    if self.ready ∧ self.role_decided then
      let r := self.supervisor.restart self.os self.now spawned
      let next := self.launch false r
      -- "Retry launch" drops the result, "Restart daemon" shows it
      match self.supervisor_error, r.result with
      | some _, _ | none, .ok () => some { next with supervisor_error := none }
      | none, .error e => some { next with supervisor_error := some e }
    else none
  | .close =>
    if self.ready then
      let r := self.supervisor.stop self.os
      some { self with closed := true, supervisor := r.1, os := r.2 }
    else none
  | .loads pid =>
    if pid ∈ self.os.alive ∧ self.os.config pid = none then
      match run_config machine .none self.file with
      | .ok cfg =>
        some { self with
          os := { self.os with config := Function.update self.os.config pid (some cfg) } }
      | .error _ => some { self with os := self.os.gone pid }
    else none
  | .exits pid => if pid ∈ self.os.alive then some { self with os := self.os.gone pid } else none

/-! ## What a step can do

Supervision, separated from everything else a step may do. -/

variable {machine} {self next : Launcher}

/-- **The supervision of a step**: whether and how it launches, stops or loses a
child. -/
theorem step_supervision {a : LauncherStep} (h : self.step machine a = some next) :
    (next.supervisor = self.supervisor ∧ next.os = self.os ∧ next.launches = self.launches ∧
      self.now ≤ next.now) ∨
    (∃ fails spawned r, a = .frame fails spawned ∧
      r = self.supervisor.ensure_running_throttled self.os self.now 3 (fails.1, fails.2.1) spawned ∧
      next.supervisor = r.supervisor ∧ next.os = r.os ∧ next.now = self.now ∧
      next.launches = (self.launch true r).launches) ∨
    (∃ spawned r, r = self.supervisor.restart self.os self.now spawned ∧
      next.supervisor = r.supervisor ∧ next.os = r.os ∧ next.now = self.now ∧
      next.launches = (self.launch false r).launches) ∨
    (next.closed = true ∧ (next.supervisor, next.os) = self.supervisor.stop self.os ∧
      next.now = self.now ∧ next.launches = self.launches) ∨
    (∃ pid, next.os = self.os.gone pid ∧ next.supervisor = self.supervisor ∧
      next.now = self.now ∧ next.launches = self.launches) ∨
    (∃ pid cfg, run_config machine .none self.file = .ok cfg ∧
      next.os = { self.os with config := Function.update self.os.config pid (some cfg) } ∧
      next.supervisor = self.supervisor ∧ next.now = self.now ∧
      next.launches = self.launches) := by
  cases a with
  | tick ns =>
      cases h
      exact .inl ⟨rfl, rfl, rfl, Nat.le_add_right _ _⟩
  | frame fails spawned =>
      -- a frame watches over the daemon only once there is a role to run
      by_cases hready : self.ready = true ∧ self.role_decided = true
      case neg =>
        simp only [step, if_neg hready] at h
        cases h
      simp only [step, if_pos hready] at h
      refine .inr (.inl ⟨fails, spawned, _, rfl, rfl, ?_⟩)
      split at h
      · cases h
        exact ⟨rfl, rfl, rfl, rfl⟩
      · cases h
        exact ⟨rfl, rfl, rfl, rfl⟩
  | change_role =>
      simp only [step] at h
      split_ifs at h
      cases h
      exact .inl ⟨rfl, rfl, rfl, Nat.le_refl _⟩
  | pick role =>
      simp only [step] at h
      split_ifs at h
      split at h
      · cases h
        exact .inl ⟨rfl, rfl, rfl, Nat.le_refl _⟩
      · cases h
        exact .inl ⟨rfl, rfl, rfl, Nat.le_refl _⟩
  | save_more n =>
      simp only [step] at h
      split at h
      · cases h
        exact .inl ⟨rfl, rfl, rfl, Nat.le_refl _⟩
      · split_ifs at h
        cases h
        exact .inl ⟨rfl, rfl, rfl, Nat.le_refl _⟩
      · cases h
  | save_fails e =>
      simp only [step] at h
      split at h
      · cases h
        exact .inl ⟨rfl, rfl, rfl, Nat.le_refl _⟩
      · cases h
  -- a finished save restarts the daemon; what the user reads about it is another matter
  | saved spawned =>
      simp only [step] at h
      split at h
      · split_ifs at h
        refine .inr (.inr (.inl ⟨spawned, _, rfl, ?_⟩))
        split at h
        · cases h
          exact ⟨rfl, rfl, rfl, rfl⟩
        · cases h
          exact ⟨rfl, rfl, rfl, rfl⟩
      · cases h
  -- so does the button, on any screen that has it
  | restart_button spawned =>
      simp only [step] at h
      split_ifs at h
      refine .inr (.inr (.inl ⟨spawned, _, rfl, ?_⟩))
      split at h
      · cases h
        exact ⟨rfl, rfl, rfl, rfl⟩
      · cases h
        exact ⟨rfl, rfl, rfl, rfl⟩
      · cases h
        exact ⟨rfl, rfl, rfl, rfl⟩
  | close =>
      simp only [step] at h
      split_ifs at h
      cases h
      exact .inr (.inr (.inr (.inl ⟨rfl, rfl, rfl, rfl⟩)))
  -- a child that cannot read its file exits
  | loads pid =>
      simp only [step] at h
      split_ifs at h
      split at h
      · rename_i cfg hcfg
        cases h
        exact .inr (.inr (.inr (.inr (.inr ⟨pid, cfg, hcfg, rfl, rfl, rfl, rfl⟩))))
      · cases h
        exact .inr (.inr (.inr (.inr (.inl ⟨pid, rfl, rfl, rfl, rfl⟩))))
  | exits pid =>
      simp only [step] at h
      split_ifs at h
      cases h
      exact .inr (.inr (.inr (.inr (.inl ⟨pid, rfl, rfl, rfl, rfl⟩))))

end Launcher

namespace DaemonSupervisor

variable (self : DaemonSupervisor) (os : Processes) (now : Nat) (spawned : Option String)

/-- **What `ensure_running` can do.** It sees the child running; or it tries to
launch one, notes when, and has a new child if that goes well. -/
theorem ensure_running_cases (fails : Bool) :
    (self.is_running os fails = true ∧ self.ensure_running os now fails spawned
      = { supervisor := self, os, attempted := false, result := .ok () }) ∨
    (self.is_running os fails = false ∧
      ((∃ e, self.ensure_running os now fails spawned
          = { supervisor := { self with last_launch_attempt := some now }, os, attempted := true
              result := .error e }) ∨
        self.ensure_running os now fails spawned
          = { supervisor := { self with
                child := some os.next_pid, last_launch_attempt := some now }
              os := os.spawn, attempted := true, result := .ok () })) := by
  unfold ensure_running
  -- a child that runs is left alone; otherwise the binary is missing, the spawn fails,
  -- or there is a new child
  split_ifs with hrunning
  · exact .inl ⟨hrunning, rfl⟩
  · refine .inr ⟨Bool.eq_false_iff.mpr hrunning, ?_⟩
    dsimp only
    split
    · exact .inl ⟨_, rfl⟩
    · exact .inl ⟨_, rfl⟩
    · exact .inr rfl

/-- The throttle: an attempt comes long enough after the last one. -/
theorem throttled_cases (cooldown_secs : Nat) (fails : Bool × Bool) :
    (self.ensure_running_throttled os now cooldown_secs fails spawned
      = { supervisor := self, os, attempted := false, result := .ok () }) ∨
    (self.is_running os fails.1 = false ∧
      (∀ last, self.last_launch_attempt = some last → last ≤ now →
        last + cooldown_secs * 10 ^ 9 ≤ now) ∧
      self.ensure_running_throttled os now cooldown_secs fails spawned
        = self.ensure_running os now fails.2 spawned) := by
  unfold ensure_running_throttled
  dsimp only
  split_ifs with hrunning
  · exact .inl rfl
  · have hrunning := Bool.eq_false_iff.mpr hrunning
    -- the throttle counts from the last attempt, and a first attempt is not throttled
    split
    · rename_i last hlast
      split_ifs with hsoon
      · exact .inl rfl
      · refine .inr ⟨hrunning, ?_, rfl⟩
        intro last' hlast' hle
        rw [hlast] at hlast'
        cases hlast'
        have hsecs := (Nat.le_div_iff_mul_le (by decide)).mp (Nat.not_lt.mp hsoon)
        omega
    · rename_i hnone
      refine .inr ⟨hrunning, ?_, rfl⟩
      intro last hlast
      rw [hnone] at hlast
      cases hlast

end DaemonSupervisor

namespace Launcher

variable {machine : Machine} {self next : Launcher}

/-! ## One daemon at a time

The invariant counts. Each stray was lost in a frame in which the operating system twice
gave no answer. -/

/-- The daemons that are alive and that the supervisor does not know of. -/
def strays (supervisor : DaemonSupervisor) (os : Processes) : List Nat :=
  os.alive.filter (fun pid => supervisor.child ≠ some pid)

/-- Once closed, the GUI does nothing any more. -/
structure Closed (t : Launcher) : Prop where
  task : t.task = .idle
  child : t.supervisor.child = none

/-- Processes have different numbers, none of which is used before. -/
structure Numbered (t : Launcher) : Prop where
  nodup : t.os.alive.Nodup
  below : ∀ pid ∈ t.os.alive, pid < t.os.next_pid
  child : ∀ pid, t.supervisor.child = some pid → pid < t.os.next_pid
  closed : t.closed = true → Closed t

/-- Both questions of one frame to the operating system failed. -/
def lost_sight : LauncherStep → Nat
  | .frame (true, true, _) _ => 1
  | _ => 0

/-- All but at most one are strays. -/
theorem alive_le_strays (supervisor : DaemonSupervisor) {os : Processes} (h : os.alive.Nodup) :
    os.alive.length ≤ (strays supervisor os).length + (if supervisor.child = none then 0 else 1) := by
  have hsplit : os.alive.length = (os.alive.filter (fun pid => supervisor.child ≠ some pid)).length
      + (os.alive.filter (fun pid => !decide (supervisor.child ≠ some pid))).length :=
    List.length_eq_length_filter_add _
  unfold strays
  -- the processes that are not strays are those the supervisor knows, and it knows at
  -- most one
  cases hchild : supervisor.child with
  | none =>
      have hnone : os.alive.filter (fun pid => !decide (supervisor.child ≠ some pid)) = [] := by
        rw [List.filter_eq_nil_iff]
        intro pid _
        simp [hchild]
      rw [hnone, hchild] at hsplit
      rw [List.length_nil] at hsplit
      exact Nat.le_of_eq hsplit
  | some pid =>
      -- all of them have the child's number, and no number is there twice
      have hone : (os.alive.filter (fun p => !decide (supervisor.child ≠ some p))).length ≤ 1 := by
        have hsub : os.alive.filter (fun p => !decide (supervisor.child ≠ some p)) ⊆ [pid] := by
          intro p hp
          have hp := (List.mem_filter.mp hp).2
          simpa [hchild, eq_comm] using hp
        have hnodup : (os.alive.filter (fun p => !decide (supervisor.child ≠ some p))).Nodup :=
          h.filter _
        exact (hnodup.subperm hsub).length_le
      rw [hchild] at hsplit hone
      simp only [reduceCtorEq, if_false]
      omega

/-- `stop` leaves the strays. -/
theorem strays_stop (supervisor : DaemonSupervisor) (os : Processes) :
    (supervisor.stop os).1.child = none ∧
      (supervisor.stop os).2.alive = strays supervisor os ∧
      (supervisor.stop os).2.next_pid = os.next_pid := by
  unfold DaemonSupervisor.stop strays
  cases hchild : supervisor.child with
  | none =>
      refine ⟨hchild, ?_, rfl⟩
      simp
  | some pid =>
      refine ⟨rfl, ?_, rfl⟩
      simp only [Processes.gone, Option.some.injEq, ne_eq, eq_comm (a := pid)]

/-- What a launch does to the strays, and to the numbers. -/
theorem strays_ensure_running (supervisor : DaemonSupervisor) (os : Processes) (now : Nat)
    (fails : Bool) (spawned : Option String) (hnodup : os.alive.Nodup)
    (hbelow : ∀ pid ∈ os.alive, pid < os.next_pid)
    (hchild : ∀ pid, supervisor.child = some pid → pid < os.next_pid) :
    let r := supervisor.ensure_running os now fails spawned
    r.os.alive.Nodup ∧ (∀ pid ∈ r.os.alive, pid < r.os.next_pid) ∧
      (∀ pid, r.supervisor.child = some pid → pid < r.os.next_pid) ∧
      (strays r.supervisor r.os).length ≤ (strays supervisor os).length
        + (if fails = true ∧ supervisor.is_running os false = true then 1 else 0) := by
  intro r
  rcases supervisor.ensure_running_cases os now spawned fails with
    ⟨-, hr⟩ | ⟨hnot, ⟨e, hr⟩ | hr⟩
  · have hr' : r = _ := hr
    rw [hr']
    exact ⟨hnodup, hbelow, hchild, Nat.le_add_right _ _⟩
  · have hr' : r = _ := hr
    rw [hr']
    exact ⟨hnodup, hbelow, hchild, Nat.le_add_right _ _⟩
  · have hr' : r = _ := hr
    rw [hr']
    have hfresh : os.next_pid ∉ os.alive := fun hmem => Nat.lt_irrefl _ (hbelow _ hmem)
    refine ⟨?_, ?_, ?_, ?_⟩
    · exact List.nodup_append.mpr ⟨hnodup, List.nodup_singleton _, by
        rintro pid hpid _ hnew rfl
        exact hfresh (List.mem_singleton.mp hnew ▸ hpid)⟩
    · intro pid hpid
      rcases List.mem_append.mp hpid with hpid | hpid
      · exact Nat.lt_succ_of_lt (hbelow pid hpid)
      · rw [List.mem_singleton.mp hpid]
        exact Nat.lt_succ_self _
    · rintro pid ⟨⟩
      exact Nat.lt_succ_self _
    · -- every daemon from before is a stray now
      have hall : strays { supervisor with
          child := some os.next_pid, last_launch_attempt := some now } os.spawn = os.alive := by
        unfold strays Processes.spawn
        rw [List.filter_append, List.filter_eq_self.mpr, List.filter_singleton]
        · simp
        · intro pid hpid
          have hne : os.next_pid ≠ pid := fun h => hfresh (h ▸ hpid)
          simpa using hne
      rw [hall]
      -- so is the child, if it is alive and the operating system did not say so
      by_cases hlost : fails = true ∧ supervisor.is_running os false = true
      · rw [if_pos hlost]
        refine Nat.le_trans (alive_le_strays supervisor hnodup) (Nat.add_le_add_left ?_ _)
        split_ifs <;> omega
      · have hdead : ∀ pid, supervisor.child = some pid → pid ∉ os.alive := by
          intro pid hpid hmem
          cases fails with
          | true => exact hlost ⟨rfl, by simpa [DaemonSupervisor.is_running, hpid] using hmem⟩
          | false => simp [DaemonSupervisor.is_running, hpid, hmem] at hnot
        have hsame : strays supervisor os = os.alive := by
          unfold strays
          rw [List.filter_eq_self]
          intro p hp
          exact decide_eq_true (fun hchild => hdead p hchild hp)
        rw [hsame]
        exact Nat.le_add_right _ _

/-- A GUI that was open and is still open. -/
theorem closed_of_open (hopen : self.closed = false) (hsame : next.closed = self.closed) :
    next.closed = true → Closed next := by
  intro h
  rw [hsame, hopen] at h
  cases h

/-- Nothing opens the GUI again, and what runs when it is closed are strays. The case
split is over all steps, as each must be shown to respect the flag. -/
theorem closed_step {a : LauncherStep} (hc : self.closed = true → Closed self)
    (h : self.step machine a = some next) : next.closed = true → Closed next := by
  -- a save under way means that the GUI is open
  have hsaving : ∀ cfg text written, self.task = .saving cfg text written → self.closed = false := by
    intro cfg text written htask
    rw [Bool.eq_false_iff]
    intro hclosed
    rw [(hc hclosed).task] at htask
    cases htask
  cases a with
  | tick ns =>
      cases h
      exact fun hclosed => ⟨(hc hclosed).task, (hc hclosed).child⟩
  | frame fails spawned =>
      by_cases hready : self.ready = true ∧ self.role_decided = true
      · simp only [step, if_pos hready] at h
        have hopen := (self.ready_iff.mp hready.1).1
        split at h <;> cases h <;> exact closed_of_open hopen rfl
      · simp only [step, if_neg hready] at h
        cases h
  | change_role =>
      simp only [step] at h
      split_ifs at h with hready
      cases h
      exact closed_of_open (self.ready_iff.mp hready).1 rfl
  | pick role =>
      simp only [step] at h
      split_ifs at h with hready
      have hopen := (self.ready_iff.mp hready.1).1
      split at h <;> cases h <;> exact closed_of_open hopen rfl
  | save_more n =>
      simp only [step] at h
      split at h
      · rename_i htask
        cases h
        exact closed_of_open (hsaving _ _ _ htask) rfl
      · rename_i htask
        split_ifs at h
        cases h
        exact closed_of_open (hsaving _ _ _ htask) rfl
      · cases h
  | save_fails e =>
      simp only [step] at h
      split at h
      · rename_i htask
        cases h
        exact closed_of_open (hsaving _ _ _ htask) rfl
      · cases h
  | saved spawned =>
      simp only [step] at h
      split at h
      · rename_i htask
        have hopen := hsaving _ _ _ htask
        split_ifs at h
        split at h <;> cases h <;> exact closed_of_open hopen rfl
      · cases h
  | restart_button spawned =>
      simp only [step] at h
      split_ifs at h with hready
      have hopen := (self.ready_iff.mp hready.1).1
      split at h <;> cases h <;> exact closed_of_open hopen rfl
  | close =>
      simp only [step] at h
      split_ifs at h with hready
      cases h
      exact fun _ => ⟨(self.ready_iff.mp hready).2, (strays_stop _ _).1⟩
  | loads pid =>
      simp only [step] at h
      split_ifs at h
      split at h <;> cases h <;> exact fun hclosed => ⟨(hc hclosed).task, (hc hclosed).child⟩
  | exits pid =>
      simp only [step] at h
      split_ifs at h
      cases h
      exact fun hclosed => ⟨(hc hclosed).task, (hc hclosed).child⟩

/-- **One step** loses sight of a child at most where both questions failed. -/
theorem strays_step (self next : Launcher) (a : LauncherStep) (hn : Numbered self)
    (h : self.step machine a = some next) :
    Numbered next ∧ (strays next.supervisor next.os).length
      ≤ (strays self.supervisor self.os).length + lost_sight a := by
  have hclosed := closed_step hn.closed h
  rcases step_supervision h with ⟨hsup, hos, -, -⟩ |
    ⟨fails, spawned, r, rfl, rfl, hsup, hos, -, -⟩ | ⟨spawned, r, rfl, hsup, hos, -, -⟩ |
    ⟨-, hstop, -, -⟩ | ⟨pid, hos, hsup, -, -⟩ | ⟨pid, cfg, -, hos, hsup, -, -⟩
  · refine ⟨⟨by rw [hos]; exact hn.nodup, by rw [hos]; exact hn.below,
      by rw [hos, hsup]; exact hn.child, hclosed⟩, ?_⟩
    rw [hsup, hos]
    exact Nat.le_add_right _ _
  · rcases self.supervisor.throttled_cases self.os self.now spawned 3 (fails.1, fails.2.1) with
      hr | ⟨hnot, -, hr⟩
    · rw [hr] at hsup hos
      refine ⟨⟨by rw [hos]; exact hn.nodup, by rw [hos]; exact hn.below,
        by rw [hos, hsup]; exact hn.child, hclosed⟩, ?_⟩
      rw [hsup, hos]
      exact Nat.le_add_right _ _
    · rw [hr] at hsup hos
      obtain ⟨hnodup, hbelow, hchild, hstrays⟩ := strays_ensure_running self.supervisor self.os
        self.now fails.2.1 spawned hn.nodup hn.below hn.child
      rw [← hsup, ← hos] at hstrays
      refine ⟨⟨by rw [hos]; exact hnodup, by rw [hos]; exact hbelow,
        by rw [hos, hsup]; exact hchild, hclosed⟩, ?_⟩
      refine Nat.le_trans hstrays (Nat.add_le_add_left ?_ _)
      obtain ⟨fails₁, fails₂, fails₃⟩ := fails
      split_ifs with hlost
      · -- the first question failed too, or it would have said that the child is running
        obtain ⟨rfl, hrunning⟩ : fails₂ = true ∧ _ := hlost
        cases fails₁ with
        | true => exact Nat.le_refl 1
        | false => rw [hrunning] at hnot; cases hnot
      · exact Nat.zero_le _
  · obtain ⟨hnone, halive, hpid⟩ := strays_stop self.supervisor self.os
    have hrest := strays_ensure_running (self.supervisor.stop self.os).1
      (self.supervisor.stop self.os).2 self.now false spawned
      (by rw [halive]; exact hn.nodup.filter _)
      (by rw [halive, hpid]; exact fun p hp => hn.below p (List.mem_of_mem_filter hp))
      (by rw [hnone]; rintro p ⟨⟩)
    obtain ⟨hnodup, hbelow, hchild, hstrays⟩ := hrest
    have hstopped : strays (self.supervisor.stop self.os).1 (self.supervisor.stop self.os).2
        = strays self.supervisor self.os := by
      rw [← halive]
      unfold strays
      rw [hnone]
      simp
    refine ⟨⟨by rw [hos]; exact hnodup, by rw [hos]; exact hbelow,
      by rw [hos, hsup]; exact hchild, hclosed⟩, ?_⟩
    rw [hstopped] at hstrays
    rw [hsup, hos]
    exact Nat.le_trans hstrays (by simp)
  · have hsup : next.supervisor = (self.supervisor.stop self.os).1 := congrArg Prod.fst hstop
    have hos : next.os = (self.supervisor.stop self.os).2 := congrArg Prod.snd hstop
    obtain ⟨hnone, halive, hpid⟩ := strays_stop self.supervisor self.os
    refine ⟨⟨?_, ?_, ?_, hclosed⟩, ?_⟩
    · rw [hos, halive]
      exact hn.nodup.filter _
    · rw [hos, halive, hpid]
      exact fun p hp => hn.below p (List.mem_of_mem_filter hp)
    · rw [hsup, hnone]
      rintro p ⟨⟩
    · refine Nat.le_trans (List.length_filter_le _ _) ?_
      rw [hos, halive]
      exact Nat.le_add_right _ _
  · refine ⟨⟨?_, ?_, ?_, hclosed⟩, ?_⟩
    · rw [hos]
      exact hn.nodup.filter _
    · rw [hos]
      exact fun p hp => hn.below p (List.mem_of_mem_filter hp)
    · rw [hos, hsup]
      exact hn.child
    · rw [hsup, hos]
      unfold strays Processes.gone
      rw [List.filter_comm]
      exact Nat.le_trans (List.length_filter_le _ _) (Nat.le_add_right _ _)
  · refine ⟨⟨by rw [hos]; exact hn.nodup, by rw [hos]; exact hn.below,
      by rw [hos, hsup]; exact hn.child, hclosed⟩, ?_⟩
    rw [hsup, hos]
    exact Nat.le_add_right _ _

/-- No process has been started. -/
theorem numbered_new (binary : Option String) (file : Option (List UInt8)) :
    Numbered (new binary file) :=
  ⟨List.nodup_nil, by rintro pid ⟨⟩, by rintro pid ⟨⟩, by rintro ⟨⟩⟩

/-- **One daemon at a time.** Whatever the user clicks, whatever the daemons do
and whatever fails: no more daemons are alive than one and the frames in which
the operating system twice did not say whether the child is running; and none
but these when the GUI is closed. -/
theorem one_daemon_at_a_time (machine : Machine) (binary : Option String)
    (file : Option (List UInt8)) (steps : List LauncherStep) (last : Launcher)
    (hrun : exec (step machine) (new binary file) steps = some last) :
    last.os.alive.length ≤ (if last.closed then 0 else 1) + (steps.map lost_sight).sum := by
  have hnew := numbered_new binary file
  have hcost := exec_cost_le (step machine) Numbered
    (fun t => (strays t.supervisor t.os).length) lost_sight (new binary file) last steps hnew
    strays_step hrun
  have hlast : Numbered last := exec_invariant (step machine) Numbered (new binary file) last steps
    hnew (fun m n a _ hm h => (strays_step m n a hm h).1) hrun
  have hzero : (strays (new binary file).supervisor (new binary file).os).length = 0 := rfl
  have hle := alive_le_strays last.supervisor hlast.nodup
  -- closed, the GUI has no child left; open, it has at most one
  cases hclosed : last.closed with
  | true =>
      rw [if_pos (hlast.closed hclosed).child] at hle
      simp only [if_true]
      omega
  | false =>
      have hone : (if last.supervisor.child = none then 0 else 1) ≤ 1 := by
        split_ifs <;> omega
      simp only [Bool.false_eq_true, if_false]
      omega

/-- The operating system does not answer twice in one frame: the child of before
goes on beside the new one. -/
theorem one_daemon_at_a_time_lost :
    let steps : List LauncherStep :=
      [.frame (false, false, false) none, .tick (3 * 10 ^ 9), .frame (true, true, false) none]
    ∃ last, exec (step sample_machine) (new (some "/usr/bin/inputsync-daemon") (some [])) steps
        = some last ∧
      last.os.alive.length = 2 ∧
      last.os.alive.length ≤ (if last.closed then 0 else 1) + (steps.map lost_sight).sum := by
  intro steps
  have hrun : (exec (step sample_machine) (new (some "/usr/bin/inputsync-daemon") (some []))
      steps).isSome := by rfl
  exact ⟨_, (Option.some_get hrun).symm, rfl, one_daemon_at_a_time sample_machine _ _ steps _
    (Option.some_get hrun).symm⟩

/-! ## Launches by the GUI itself

The throttle as an invariant of the launch times. -/

/-- Events at least `d` apart. -/
theorem length_mul_gap_le (d : Nat) (times : List Nat) (now : Nat)
    (h : times.Pairwise (fun s t => s + d ≤ t)) (hle : ∀ t ∈ times, t ≤ now) :
    times.length * d ≤ now + d := by
  induction times using List.reverseRecOn generalizing now with
  | nil => simp
  | append_singleton times t ih =>
      obtain ⟨htimes, -, hlast⟩ := List.pairwise_append.mp h
      have ht : t ≤ now := hle t (by simp)
      have hbefore : ∀ s ∈ times, s + d ≤ t := fun s hs => hlast s hs t (List.mem_singleton_self t)
      rw [List.length_append, List.length_singleton, Nat.add_mul, Nat.one_mul]
      cases times with
      | nil => simp
      | cons s rest =>
          have hs := hbefore s List.mem_cons_self
          have hrest := ih (t - d) htimes (fun s' hs' => by have hs' := hbefore s' hs'; omega)
          omega

/-- Three seconds. -/
def cooldown : Nat := 3 * 10 ^ 9

/-- An automatic launch comes three seconds after any other. -/
structure Throttled (t : Launcher) : Prop where
  attempts : ∀ e ∈ t.launches, ∃ last, t.supervisor.last_launch_attempt = some last ∧ e.1 ≤ last
  past : ∀ last, t.supervisor.last_launch_attempt = some last → last ≤ t.now
  apart : t.launches.Pairwise (fun e l => l.2 = true → e.1 + cooldown ≤ l.1)

/-- A launch that is not too early. -/
theorem Throttled.launched (ht : Throttled self) (automatic : Bool) (supervisor : DaemonSupervisor)
    (os : Processes) (fails : Bool) (spawned : Option String)
    (hsame : supervisor.last_launch_attempt = self.supervisor.last_launch_attempt)
    (hlate : automatic = true → ∀ last, self.supervisor.last_launch_attempt = some last →
      last + cooldown ≤ self.now)
    (hsup : next.supervisor = (supervisor.ensure_running os self.now fails spawned).supervisor)
    (hnow : next.now = self.now)
    (hlaunches : next.launches
      = (self.launch automatic (supervisor.ensure_running os self.now fails spawned)).launches) :
    Throttled next := by
  -- an attempt, whether it succeeds or not, becomes the latest one and enters the list
  have hattempt : ∀ r : DaemonSupervisor.Launched, r.attempted = true →
      r.supervisor.last_launch_attempt = some self.now → next.supervisor = r.supervisor →
      next.launches = (self.launch automatic r).launches → Throttled next := by
    intro r hr hlast hsup hlaunches
    rw [launch, if_pos hr] at hlaunches
    refine ⟨?_, ?_, ?_⟩
    · intro e he
      refine ⟨self.now, by rw [hsup, hlast], ?_⟩
      rw [hlaunches] at he
      rcases List.mem_append.mp he with he | he
      · obtain ⟨last, hlast', hle⟩ := ht.attempts e he
        exact Nat.le_trans hle (ht.past last hlast')
      · rw [List.mem_singleton.mp he]
    · intro last hl
      rw [hsup, hlast] at hl
      rw [hnow, ← Option.some.inj hl]
    · rw [hlaunches]
      -- all earlier attempts were no later than the one recorded last, and that one is
      -- a cooldown ago
      refine List.pairwise_append.mpr ⟨ht.apart, List.pairwise_singleton _ _, ?_⟩
      intro e he l hl hauto
      obtain rfl := List.mem_singleton.mp hl
      obtain ⟨last, hlast', hle⟩ := ht.attempts e he
      have hlate' := hlate hauto last hlast'
      dsimp only
      omega
  rcases supervisor.ensure_running_cases os self.now spawned fails with
    ⟨-, hr⟩ | ⟨-, ⟨e, hr⟩ | hr⟩
  -- no attempt was made: nothing has changed but perhaps the time
  · rw [hr] at hsup hlaunches
    refine ⟨?_, ?_, ?_⟩
    · intro e he
      rw [hlaunches] at he
      rw [hsup, hsame]
      exact ht.attempts e he
    · intro last hlast
      rw [hsup, hsame] at hlast
      rw [hnow]
      exact ht.past last hlast
    · rw [hlaunches]
      exact ht.apart
  · rw [hr] at hsup hlaunches
    exact hattempt _ rfl rfl hsup hlaunches
  · rw [hr] at hsup hlaunches
    exact hattempt _ rfl rfl hsup hlaunches

/-- Stopping a child does not reset the throttle. -/
theorem stop_last_launch_attempt (supervisor : DaemonSupervisor) (os : Processes) :
    (supervisor.stop os).1.last_launch_attempt = supervisor.last_launch_attempt := by
  unfold DaemonSupervisor.stop
  split <;> rfl

/-- An automatic launch is let through only when the last attempt, of whoever, is three
seconds back; so the times of the launches keep their distance. Every other step leaves
them or adds one that is not automatic. -/
theorem throttled_step (self next : Launcher) (a : LauncherStep) (ht : Throttled self)
    (h : self.step machine a = some next) : Throttled next := by
  -- nothing is launched
  have hquiet : next.supervisor.last_launch_attempt = self.supervisor.last_launch_attempt →
      next.launches = self.launches → self.now ≤ next.now → Throttled next := by
    intro hsup hlaunches hnow
    refine ⟨?_, ?_, ?_⟩
    · rw [hlaunches, hsup]
      exact ht.attempts
    · rw [hsup]
      exact fun last hlast => Nat.le_trans (ht.past last hlast) hnow
    · rw [hlaunches]
      exact ht.apart
  rcases step_supervision h with ⟨hsup, -, hlaunches, hnow⟩ |
    ⟨fails, spawned, r, rfl, rfl, hsup, -, hnow, hlaunches⟩ |
    ⟨spawned, r, rfl, hsup, -, hnow, hlaunches⟩ | ⟨-, hstop, hnow, hlaunches⟩ |
    ⟨pid, -, hsup, hnow, hlaunches⟩ | ⟨pid, cfg, -, -, hsup, hnow, hlaunches⟩
  · exact hquiet (by rw [hsup]) hlaunches hnow
  · rcases self.supervisor.throttled_cases self.os self.now spawned 3 (fails.1, fails.2.1) with
      hr | ⟨-, hlate, hr⟩
    · rw [hr] at hsup hlaunches
      exact hquiet (by rw [hsup]) hlaunches (Nat.le_of_eq hnow.symm)
    · rw [hr] at hsup hlaunches
      exact ht.launched true self.supervisor self.os fails.2.1 spawned rfl
        (fun _ last hlast => hlate last hlast (ht.past last hlast)) hsup hnow hlaunches
  · exact ht.launched false (self.supervisor.stop self.os).1 (self.supervisor.stop self.os).2 false
      spawned (stop_last_launch_attempt _ _) (by rintro ⟨⟩) hsup hnow hlaunches
  · have hsup : next.supervisor = (self.supervisor.stop self.os).1 := congrArg Prod.fst hstop
    exact hquiet (by rw [hsup, stop_last_launch_attempt]) hlaunches (Nat.le_of_eq hnow.symm)
  · exact hquiet (by rw [hsup]) hlaunches (Nat.le_of_eq hnow.symm)
  · exact hquiet (by rw [hsup]) hlaunches (Nat.le_of_eq hnow.symm)

/-- **No launch storm.** Whatever happens, a launch the GUI makes by itself comes
at least three seconds after every attempt before it, the user's included; so in
any time there are no more of them than one and one for every three seconds. -/
theorem no_launch_storm (machine : Machine) (binary : Option String)
    (file : Option (List UInt8)) (steps : List LauncherStep) (last : Launcher)
    (hrun : exec (step machine) (new binary file) steps = some last) :
    last.launches.Pairwise (fun e l => l.2 = true → e.1 + cooldown ≤ l.1) ∧
      (last.launches.filter (fun e => e.2)).length * cooldown ≤ last.now + cooldown := by
  have ht : Throttled last := exec_invariant (step machine) Throttled (new binary file) last steps
    ⟨by rintro e ⟨⟩, by rintro last ⟨⟩, List.Pairwise.nil⟩
    (fun m n a _ hm h => throttled_step m n a hm h) hrun
  refine ⟨ht.apart, ?_⟩
  have hgap := length_mul_gap_le cooldown ((last.launches.filter (fun e => e.2)).map Prod.fst)
    last.now ?_ ?_
  · rwa [List.length_map] at hgap
  · rw [List.pairwise_map, List.pairwise_filter]
    exact ht.apart.imp (fun hlate _ hauto => hlate hauto)
  · intro t hmem
    obtain ⟨e, he, rfl⟩ := List.mem_map.mp hmem
    obtain ⟨l, hlast, hle⟩ := ht.attempts e (List.mem_of_mem_filter he)
    exact Nat.le_trans hle (ht.past l hlast)

/-- A daemon that dies at once is launched again after three seconds, not
before. -/
theorem no_launch_storm_dying :
    let steps : List LauncherStep :=
      [.frame (false, false, false) none, .exits 0, .tick (2 * 10 ^ 9),
        .frame (false, false, false) none, .tick (10 ^ 9), .frame (false, false, false) none]
    ∃ last, exec (step sample_machine) (new (some "/usr/bin/inputsync-daemon") (some [])) steps
        = some last ∧
      last.launches = [(0, true), (cooldown, true)] ∧
      last.launches.Pairwise (fun e l => l.2 = true → e.1 + cooldown ≤ l.1) ∧
      (last.launches.filter (fun e => e.2)).length * cooldown ≤ last.now + cooldown := by
  intro steps
  have hrun : (exec (step sample_machine) (new (some "/usr/bin/inputsync-daemon") (some []))
      steps).isSome := by rfl
  exact ⟨_, (Option.some_get hrun).symm, rfl, no_launch_storm sample_machine _ _ steps _
    (Option.some_get hrun).symm⟩

end Launcher

end InputSync
