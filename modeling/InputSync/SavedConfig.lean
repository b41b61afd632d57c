/-
The configuration file between the GUI and its daemons: the GUI writes it
(`apply_role_choice` in `crates/gui/src/main.rs`), each daemon reads it once.

A daemon that starts while the file is being written reads a part of it. The
role is decided only after the file is whole and another child is started, so
while it is, the child has read what is saved or nothing yet.
-/
import InputSync.Launcher

set_option autoImplicit false

namespace InputSync

namespace Launcher

variable {machine : Machine} {self next : Launcher}

/-! ## What the daemon is told

Between the choice of a role and a daemon that plays it lie a save in several steps, a
restart and a read. `Informed` says for each of them what is known. -/

/-- What the GUI knows of the daemon it has started. While a role is decided,
nothing is being saved, the file is there, and the child has read what it holds
or has not read it yet. -/
structure Informed (machine : Machine) (t : Launcher) : Prop where
  idle : t.role_decided = true → t.task = .idle
  file : t.role_decided = true → ∃ bytes, t.file = some bytes
  child : t.role_decided = true → ∀ pid cfg, t.supervisor.child = some pid →
    t.os.config pid = some cfg → Config.load machine t.file = .ok cfg
  chosen : t.role_decided = true → ∀ role, t.chosen = some role →
    ∃ cfg, Config.load machine t.file = .ok cfg ∧ cfg.role = role
  saving : ∀ cfg text written, t.task = .saving cfg text written →
    cfg.save_text machine = some text ∧ ∀ k, written = some k → t.file = some (text.take k)
  fresh : ∀ pid, t.os.next_pid ≤ pid → t.os.config pid = none

/-- A role that is not decided promises nothing. -/
theorem Informed.undecided (hrole : next.role_decided = false)
    (hsaving : ∀ cfg text written, next.task = .saving cfg text written →
      cfg.save_text machine = some text ∧ ∀ k, written = some k → next.file = some (text.take k))
    (hfresh : ∀ pid, next.os.next_pid ≤ pid → next.os.config pid = none) :
    Informed machine next := by
  have hno : next.role_decided ≠ true := by rw [hrole]; exact Bool.false_ne_true
  exact ⟨fun h => absurd h hno, fun h => absurd h hno, fun h => absurd h hno,
    fun h => absurd h hno, hsaving, hfresh⟩

/-- The GUI, the file and the role stay; the child has read what it had, or
nothing. -/
theorem Informed.same (hi : Informed machine self) (htask : next.task = self.task)
    (hrole : next.role_decided = self.role_decided) (hfile : next.file = self.file)
    (hchosen : next.chosen = self.chosen)
    (hchild : ∀ pid cfg, next.supervisor.child = some pid → next.os.config pid = some cfg →
      self.supervisor.child = some pid ∧ self.os.config pid = some cfg)
    (hfresh : ∀ pid, next.os.next_pid ≤ pid → next.os.config pid = none) :
    Informed machine next where
  idle := by
    rw [hrole, htask]
    exact hi.idle
  file := by
    rw [hrole, hfile]
    exact hi.file
  child := by
    rw [hrole, hfile]
    intro h pid cfg hp hcfg
    obtain ⟨hp, hcfg⟩ := hchild pid cfg hp hcfg
    exact hi.child h pid cfg hp hcfg
  chosen := by
    rw [hrole, hfile, hchosen]
    exact hi.chosen
  saving := by
    rw [htask, hfile]
    exact hi.saving
  fresh := hfresh

/-- A launch adds a child that has read nothing. -/
theorem ensure_running_config (supervisor : DaemonSupervisor) (os : Processes) (now : Nat)
    (fails : Bool) (spawned : Option String) (hfresh : ∀ pid, os.next_pid ≤ pid → os.config pid = none) :
    let r := supervisor.ensure_running os now fails spawned
    (∀ pid cfg, r.supervisor.child = some pid → r.os.config pid = some cfg →
      supervisor.child = some pid ∧ os.config pid = some cfg) ∧
      ∀ pid, r.os.next_pid ≤ pid → r.os.config pid = none := by
  intro r
  rcases supervisor.ensure_running_cases os now spawned fails with ⟨-, hr⟩ | ⟨-, ⟨e, hr⟩ | hr⟩
  · have hr' : r = _ := hr
    rw [hr']
    exact ⟨fun pid cfg hp hcfg => ⟨hp, hcfg⟩, hfresh⟩
  · have hr' : r = _ := hr
    rw [hr']
    exact ⟨fun pid cfg hp hcfg => ⟨hp, hcfg⟩, hfresh⟩
  · have hr' : r = _ := hr
    rw [hr']
    refine ⟨?_, fun pid hpid => hfresh pid (Nat.le_of_succ_le hpid)⟩
    rintro pid cfg ⟨⟩ hcfg
    exact absurd ((hfresh _ (Nat.le_refl _)).symm.trans hcfg) (by rintro ⟨⟩)

/-- After a restart there is no child, or one that has read nothing. -/
theorem restart_config (supervisor : DaemonSupervisor) (os : Processes) (now : Nat)
    (spawned : Option String) (hfresh : ∀ pid, os.next_pid ≤ pid → os.config pid = none) :
    let r := supervisor.restart os now spawned
    (∀ pid cfg, r.supervisor.child = some pid → r.os.config pid ≠ some cfg) ∧
      ∀ pid, r.os.next_pid ≤ pid → r.os.config pid = none := by
  intro r
  obtain ⟨hnone, -, hpid⟩ := strays_stop supervisor os
  have hconfig : (supervisor.stop os).2.config = os.config := by
    unfold DaemonSupervisor.stop
    split <;> rfl
  obtain ⟨hchild, hrest⟩ := ensure_running_config (supervisor.stop os).1 (supervisor.stop os).2 now
    false spawned (by rw [hpid, hconfig]; exact hfresh)
  refine ⟨?_, hrest⟩
  intro pid cfg hp hcfg
  obtain ⟨hbefore, -⟩ := hchild pid cfg hp hcfg
  rw [hnone] at hbefore
  cases hbefore

/-- While something is saved, no role is decided. -/
theorem Informed.undecided_of_saving (hi : Informed machine self) {cfg : Config}
    {text : List UInt8} {written : Option Nat} (htask : self.task = .saving cfg text written) :
    self.role_decided = false := by
  rw [Bool.eq_false_iff]
  intro hrole
  rw [hi.idle hrole] at htask
  cases htask

/-- One lemma for all steps, since the GUI's record and the daemon's change in different
ones. A save leaves the role undecided until the file is whole; the restart that follows
starts a child that has read nothing; and a child reads what is there. -/
theorem informed_step (self next : Launcher) (a : LauncherStep)
    (hi : Informed machine self ∧ Numbered self) (h : self.step machine a = some next) :
    Informed machine next := by
  obtain ⟨hi, hn⟩ := hi
  cases a with
  | tick ns =>
      cases h
      exact hi.same rfl rfl rfl rfl (fun _ _ hp hcfg => ⟨hp, hcfg⟩) hi.fresh
  | frame fails spawned =>
      by_cases hready : self.ready = true ∧ self.role_decided = true
      case neg =>
        simp only [step, if_neg hready] at h
        cases h
      simp only [step, if_pos hready] at h
      have hconfig : ∀ r, r = self.supervisor.ensure_running_throttled self.os self.now 3
          (fails.1, fails.2.1) spawned →
          (∀ pid cfg, r.supervisor.child = some pid → r.os.config pid = some cfg →
            self.supervisor.child = some pid ∧ self.os.config pid = some cfg) ∧
          ∀ pid, r.os.next_pid ≤ pid → r.os.config pid = none := by
        rintro r rfl
        rcases self.supervisor.throttled_cases self.os self.now spawned 3 (fails.1, fails.2.1) with
          hr | ⟨-, -, hr⟩
        · rw [hr]
          exact ⟨fun pid cfg hp hcfg => ⟨hp, hcfg⟩, hi.fresh⟩
        · rw [hr]
          exact ensure_running_config self.supervisor self.os self.now fails.2.1 spawned hi.fresh
      obtain ⟨hchild, hfresh⟩ := hconfig _ rfl
      split at h <;> cases h <;> exact hi.same rfl rfl rfl rfl hchild hfresh
  | change_role =>
      simp only [step] at h
      split_ifs at h
      cases h
      exact Informed.undecided rfl hi.saving hi.fresh
  | pick role =>
      simp only [step] at h
      split_ifs at h with hready
      split at h
      · cases h
        exact Informed.undecided hready.2 hi.saving hi.fresh
      · rename_i text htext
        cases h
        refine Informed.undecided hready.2 ?_ hi.fresh
        rintro _ _ _ ⟨⟩
        exact ⟨htext, by rintro k ⟨⟩⟩
  | save_more n =>
      simp only [step] at h
      split at h
      · rename_i cfg text htask
        cases h
        refine Informed.undecided (hi.undecided_of_saving htask) ?_ hi.fresh
        rintro _ _ _ ⟨⟩
        refine ⟨(hi.saving _ _ _ htask).1, ?_⟩
        rintro k ⟨⟩
        rw [List.take_zero]
      · rename_i cfg text written htask
        split_ifs at h
        cases h
        refine Informed.undecided (hi.undecided_of_saving htask) ?_ hi.fresh
        rintro _ _ _ ⟨⟩
        refine ⟨(hi.saving _ _ _ htask).1, ?_⟩
        rintro k ⟨⟩
        rfl
      · cases h
  | save_fails e =>
      simp only [step] at h
      split at h
      · rename_i htask
        cases h
        exact Informed.undecided (hi.undecided_of_saving htask) (by rintro _ _ _ ⟨⟩) hi.fresh
      · cases h
  | saved spawned =>
      simp only [step] at h
      split at h
      · rename_i cfg text written htask
        split_ifs at h with hwritten
        obtain ⟨hchild, hfresh⟩ := restart_config self.supervisor self.os self.now spawned hi.fresh
        split at h
        · cases h
          -- the file holds all of the text
          obtain ⟨htext, hfile⟩ := hi.saving _ _ _ htask
          have hfile := hfile written rfl
          rw [List.take_of_length_le (Nat.not_lt.mp hwritten)] at hfile
          have hload : Config.load machine self.file = .ok cfg := by
            rw [hfile]
            exact load_save_text machine cfg text htext
          refine ⟨fun _ => rfl, fun _ => ⟨text, hfile⟩, ?_, ?_, by rintro _ _ _ ⟨⟩, hfresh⟩
          · intro _ pid c hp hc
            exact absurd hc (hchild pid c hp)
          · rintro _ role ⟨⟩
            exact ⟨cfg, hload, rfl⟩
        · cases h
          exact Informed.undecided (hi.undecided_of_saving htask) (by rintro _ _ _ ⟨⟩) hfresh
      · cases h
  | restart_button spawned =>
      simp only [step] at h
      split_ifs at h
      obtain ⟨hchild, hfresh⟩ := restart_config self.supervisor self.os self.now spawned hi.fresh
      split at h <;> cases h <;>
        exact hi.same rfl rfl rfl rfl (fun pid cfg hp hcfg => absurd hcfg (hchild pid cfg hp)) hfresh
  | close =>
      simp only [step] at h
      split_ifs at h
      cases h
      obtain ⟨hnone, -, hpid⟩ := strays_stop self.supervisor self.os
      have hconfig : (self.supervisor.stop self.os).2.config = self.os.config := by
        unfold DaemonSupervisor.stop
        split <;> rfl
      refine hi.same rfl rfl rfl rfl ?_ ?_
      · intro pid cfg hp
        exact absurd (hnone.symm.trans hp) (by rintro ⟨⟩)
      · intro pid hle
        exact (congrFun hconfig pid).trans (hi.fresh pid (Nat.le_trans (Nat.le_of_eq hpid.symm) hle))
  | loads pid =>
      simp only [step] at h
      split_ifs at h with halive
      split at h
      · rename_i cfg hcfg
        cases h
        have hfresh : ∀ p, self.os.next_pid ≤ p →
            Function.update self.os.config pid (some cfg) p = none := by
          intro p hp
          have hlt := hn.below pid halive.1
          rw [Function.update_of_ne (by omega)]
          exact hi.fresh p hp
        refine ⟨hi.idle, hi.file, ?_, hi.chosen, hi.saving, hfresh⟩
        intro hrole p c hp hc
        by_cases hpid : p = pid
        · -- the child reads the file
          obtain ⟨bytes, hfile⟩ := hi.file hrole
          dsimp only at hc hfile ⊢
          rw [hpid, Function.update_self, Option.some.injEq] at hc
          subst hc
          rw [hfile] at hcfg ⊢
          exact run_config_none machine bytes cfg hcfg
        · dsimp only at hc
          rw [Function.update_of_ne hpid] at hc
          exact hi.child hrole p c hp hc
      · cases h
        exact hi.same rfl rfl rfl rfl (fun _ _ hp hcfg => ⟨hp, hcfg⟩) hi.fresh
  | exits pid =>
      simp only [step] at h
      split_ifs at h
      cases h
      exact hi.same rfl rfl rfl rfl (fun _ _ hp hcfg => ⟨hp, hcfg⟩) hi.fresh

/-- The settings of `base`, with some role, are in the file or on their way
there. -/
structure Kept (machine : Machine) (base : Config) (t : Launcher) : Prop where
  idle : t.task = .idle → ∃ role, Config.load_or_default machine t.file = { base with role }
  saving : ∀ cfg text written, t.task = .saving cfg text written → ∃ role, cfg = { base with role }

/-- A step that touches neither the task nor the file keeps the rest of the
configuration. -/
theorem Kept.same {base : Config} (hk : Kept machine base self) (htask : next.task = self.task)
    (hfile : next.file = self.file) : Kept machine base next where
  idle := by
    rw [htask, hfile]
    exact hk.idle
  saving := by
    rw [htask]
    exact hk.saving

/-- The part of the configuration the GUI does not ask about survives its saves, unless
one fails halfway. -/
theorem kept_step {base : Config} (self next : Launcher) (a : LauncherStep)
    (ha : ∀ e, a ≠ .save_fails e) (hi : Informed machine self) (hk : Kept machine base self)
    (h : self.step machine a = some next) : Kept machine base next := by
  cases a with
  | tick ns =>
      cases h
      exact hk.same rfl rfl
  -- a frame may start a daemon, and touches neither the file nor the task
  | frame fails spawned =>
      by_cases hready : self.ready = true ∧ self.role_decided = true
      case neg =>
        simp only [step, if_neg hready] at h
        cases h
      simp only [step, if_pos hready] at h
      split at h <;> cases h <;> exact hk.same rfl rfl
  | change_role | close =>
      simp only [step] at h
      split_ifs at h
      cases h
      exact hk.same rfl rfl
  | pick role =>
      simp only [step] at h
      split_ifs at h with hready
      split at h
      · cases h
        exact hk.same rfl rfl
      · cases h
        refine ⟨by rintro ⟨⟩, ?_⟩
        rintro _ _ _ ⟨⟩
        obtain ⟨old, hold⟩ := hk.idle (self.ready_iff.mp hready.1).2
        -- the new configuration is the old one with another role
        exact ⟨role, by rw [hold]⟩
  | save_more n =>
      simp only [step] at h
      split at h
      · rename_i htask
        cases h
        refine ⟨by rintro ⟨⟩, ?_⟩
        rintro _ _ _ ⟨⟩
        exact hk.saving _ _ _ htask
      · rename_i htask
        split_ifs at h
        cases h
        refine ⟨by rintro ⟨⟩, ?_⟩
        rintro _ _ _ ⟨⟩
        exact hk.saving _ _ _ htask
      · cases h
  | save_fails e => exact absurd rfl (ha e)
  | saved spawned =>
      simp only [step] at h
      split at h
      · rename_i cfg text written htask
        split_ifs at h with hwritten
        obtain ⟨htext, hfile⟩ := hi.saving _ _ _ htask
        have hfile := hfile written rfl
        rw [List.take_of_length_le (Nat.not_lt.mp hwritten)] at hfile
        -- the file is written to its end, so loading it gives what was saved
        have hload : Config.load_or_default machine self.file = cfg := by
          rw [Config.load_or_default, hfile, load_save_text machine cfg text htext]
        have hrole := hk.saving _ _ _ htask
        split at h <;> cases h <;>
          exact ⟨fun _ => hload.symm ▸ hrole, by rintro _ _ _ ⟨⟩⟩
      · cases h
  | restart_button spawned =>
      simp only [step] at h
      split_ifs at h
      split at h <;> cases h <;> exact hk.same rfl rfl
  | loads pid =>
      simp only [step] at h
      split_ifs at h
      split at h <;> cases h <;> exact hk.same rfl rfl
  | exits pid =>
      simp only [step] at h
      split_ifs at h
      cases h
      exact hk.same rfl rfl

/-- At the start no role was chosen, so nothing is promised. -/
theorem informed_new (machine : Machine) (binary : Option String) (file : Option (List UInt8)) :
    Informed machine (new binary file) where
  idle := fun _ => rfl
  file := fun h => Option.isSome_iff_exists.mp h
  child := by rintro - pid cfg ⟨⟩
  chosen := by rintro - role ⟨⟩
  saving := by rintro cfg text written ⟨⟩
  fresh := fun _ _ => rfl

/-- **The daemon runs as saved.** In every state in which a role is decided, a
child that has read its configuration has read what the file holds: its role
is the one applied last, if any was; and if no save was cut off on the way, all
its other settings are those from the start, or the defaults where there were
none to be read. -/
theorem daemon_runs_as_saved (machine : Machine) (binary : Option String)
    (file : Option (List UInt8)) (steps : List LauncherStep) (last : Launcher)
    (hrun : exec (step machine) (new binary file) steps = some last)
    (hrole : last.role_decided = true) (pid : Nat) (cfg : Config)
    (hchild : last.supervisor.child = some pid) (hcfg : last.os.config pid = some cfg) :
    Config.load machine last.file = .ok cfg ∧
      (∀ role, last.chosen = some role → cfg.role = role) ∧
      ((∀ a ∈ steps, ∀ e, a ≠ .save_fails e) →
        cfg = { Config.load_or_default machine file with role := cfg.role }) := by
  -- the invariant needs the other one, that process numbers are not used again
  let inv : Launcher → Prop := fun t => Informed machine t ∧ Numbered t
  have hstep : ∀ m n a, inv m → m.step machine a = some n → inv n := fun m n a hm h =>
    ⟨informed_step m n a hm h, (strays_step m n a hm.2 h).1⟩
  have hnew : inv (new binary file) := ⟨informed_new machine binary file, numbered_new binary file⟩
  obtain ⟨hi, -⟩ : inv last := exec_invariant (step machine) inv (new binary file) last steps hnew
    (fun m n a _ => hstep m n a) hrun
  have hload := hi.child hrole pid cfg hchild hcfg
  refine ⟨hload, ?_, ?_⟩
  · intro role hchosen
    obtain ⟨c, hc, rfl⟩ := hi.chosen hrole role hchosen
    rw [hload] at hc
    cases hc
    rfl
  -- without failed saves each file is the one before with another role, back to the
  -- first
  · intro hsaves
    have hkept : inv last ∧ Kept machine (Config.load_or_default machine file) last := by
      refine exec_invariant (step machine)
        (fun t => inv t ∧ Kept machine (Config.load_or_default machine file) t) (new binary file)
        last steps ⟨hnew, ⟨fun _ => ⟨_, rfl⟩, by rintro c text written ⟨⟩⟩⟩ ?_ hrun
      rintro m n a ha ⟨hm, hk⟩ h
      exact ⟨hstep m n a hm h, kept_step m n a (hsaves a ha) hm.1 hk h⟩
    obtain ⟨role, hbase⟩ := hkept.2.idle (hi.idle hrole)
    rw [Config.load_or_default, hload] at hbase
    dsimp only at hbase
    rw [hbase]

/-- A child reads the configuration. -/
theorem step_loads {pid : Nat} {cfg : Config} (halive : pid ∈ self.os.alive)
    (hunread : self.os.config pid = none) (hrun : run_config machine .none self.file = .ok cfg) :
    self.step machine (.loads pid) = some { self with
      os := { self.os with config := Function.update self.os.config pid (some cfg) } } := by
  simp only [step, if_pos (And.intro halive hunread), hrun]

/-- The role is picked, saved in one go, and read by the child. -/
theorem daemon_runs_as_saved_client :
    let steps : List LauncherStep :=
      [.pick .Client, .save_more 0, .save_more (utf8 sample_toml).length, .saved none, .loads 0]
    ∃ last, exec (step sample_machine) (new (some "/usr/bin/inputsync-daemon") none) steps
        = some last ∧
      Config.load sample_machine last.file = .ok sample_config ∧
      (∀ role, last.chosen = some role → sample_config.role = role) ∧
      ((∀ a ∈ steps, ∀ e, a ≠ .save_fails e) →
        sample_config
          = { Config.load_or_default sample_machine none with role := sample_config.role }) := by
  have htext : sample_config.save_text sample_machine = some (utf8 sample_toml) := by
    simp [Config.save_text, sample_machine]
  have hload := load_save_text sample_machine sample_config _ htext
  have hrun : run_config sample_machine .none (some (utf8 sample_toml)) = .ok sample_config := by
    rw [run_config, hload]
    rfl
  have hlen : 0 < (utf8 sample_toml).length := by
    refine List.length_pos_iff.mpr fun hnil => ?_
    have hutf := congrArg (fun bytes : List UInt8 => String.fromUTF8? ⟨bytes.toArray⟩) hnil
    have hempty : sample_toml = "" := Option.some_inj.mp (((fromUTF8_utf8 _).symm.trans hutf).trans
      (fromUTF8_utf8 ""))
    exact absurd hempty (by decide)
  -- from here on it does not matter what the text is
  generalize utf8 sample_toml = text at htext hload hrun hlen ⊢
  intro steps
  let start := new (some "/usr/bin/inputsync-daemon") none
  let saving := fun written file => ({ start with
    task := .saving sample_config text written, file } : Launcher)
  let loaded : Launcher :=
    { start with
      role_decided := true, file := some text, chosen := some .Client, launches := [(0, false)]
      supervisor := ⟨some 0, some "/usr/bin/inputsync-daemon", some 0⟩
      os := ⟨[0], 1, Function.update (fun _ => none) 0 (some sample_config)⟩ }
  have hpick : start.step sample_machine (.pick .Client) = some (saving none none) := by
    have hcfg : { Config.load_or_default sample_machine none with role := .Client } = sample_config :=
      rfl
    simp only [step, start, new]
    rw [if_pos ⟨rfl, rfl⟩, hcfg, htext]
    rfl
  have hwrite : (saving (some 0) (some [])).step sample_machine (.save_more text.length)
      = some (saving (some (text.length + 1)) (some text)) := by
    simp only [step, saving]
    rw [if_pos hlen, List.take_of_length_le (by omega), Nat.zero_add]
  have hsaved : (saving (some (text.length + 1)) (some text)).step sample_machine (.saved none)
      = some { loaded with os := ⟨[0], 1, fun _ => none⟩ } := by
    simp only [step, saving]
    rw [if_neg (by omega)]
    rfl
  have hloads : ({ loaded with os := ⟨[0], 1, fun _ => none⟩ } : Launcher).step sample_machine
      (.loads 0) = some loaded :=
    step_loads (List.mem_singleton_self 0) rfl hrun
  have hlast : exec (step sample_machine) start steps = some loaded :=
    Option.bind_eq_some_iff.mpr ⟨_, hpick, Option.bind_eq_some_iff.mpr ⟨saving (some 0) (some []), rfl,
      Option.bind_eq_some_iff.mpr ⟨_, hwrite, Option.bind_eq_some_iff.mpr ⟨_, hsaved,
        Option.bind_eq_some_iff.mpr ⟨_, hloads, rfl⟩⟩⟩⟩⟩
  have hcfg : loaded.os.config 0 = some sample_config := rfl
  exact ⟨loaded, hlast, daemon_runs_as_saved sample_machine _ none steps loaded hlast rfl 0
    sample_config rfl hcfg⟩

end Launcher

end InputSync
