/-
Runs of machines, and merges of message streams.

Two kinds of machine occur in a verification of event-driven code. A *total*
machine takes every input in every state and emits something for it; a
*partial* one has steps that may be disabled, such as receiving from an empty
channel. For each, this file fixes what a run is and packages its induction
once: a property kept by every step holds wherever a run can lead.

The last section is about merges. A list of tagged items is one interleaving
of the streams its tags select, so "every interleaving that keeps each
sender's order" is "every tagged list whose projections are the streams".
-/
import Mathlib.Algebra.BigOperators.Group.List.Basic
import Mathlib.Data.List.Induction
import Mathlib.Tactic.Abel
import Mathlib.Tactic.Common

set_option autoImplicit false

universe u v w

namespace InputSync

/-! ## Total machines

Pure transition functions of the source are of this kind: the edge detector, a drain
loop iteration, a clipboard manager, a file receiver. The four rules go from a property
of one step to a property of a run. They differ in what the property may speak about:
the state and the outputs, the inputs as well, or a quantity that telescopes. -/

section Total

variable {S : Type u} {A : Type v} {O : Type w}

/-- A run of a machine that emits a list of outputs for each input: the final
state and all outputs in order. -/
def runOut (step : S → A → S × List O) : S → List A → S × List O
  | s, [] => (s, [])
  | s, a :: as =>
    let r := step s a
    let rest := runOut step r.1 as
    (rest.1, r.2 ++ rest.2)

variable (step : S → A → S × List O)

/-- A run without inputs stays where it is and emits nothing. -/
@[simp] theorem runOut_nil (s : S) : runOut step s [] = (s, []) := rfl

/-- A run seen from its first input. With `runOut_nil` it evaluates a run on a fixed
list, which is how an example is computed. -/
@[simp] theorem runOut_cons (s : S) (a : A) (as : List A) :
    runOut step s (a :: as)
      = ((runOut step (step s a).1 as).1, (step s a).2 ++ (runOut step (step s a).1 as).2) := rfl

/-- A run can be cut anywhere: the second part starts from the state the first one ended
in, and the outputs are appended. -/
theorem runOut_append (s : S) (as bs : List A) :
    runOut step s (as ++ bs)
      = ((runOut step (runOut step s as).1 bs).1,
          (runOut step s as).2 ++ (runOut step (runOut step s as).1 bs).2) := by
  induction as generalizing s with
  | nil => rfl
  | cons a as ih => simp only [List.cons_append, runOut_cons, ih, List.append_assoc]

/-- A run seen from its last input. The rules below go by induction from the right, so
this is the equation they all rewrite with: a property of what was emitted so far is
extended by one step, while the start stays fixed. -/
theorem runOut_concat (s : S) (as : List A) (a : A) :
    runOut step s (as ++ [a])
      = ((step (runOut step s as).1 a).1,
        (runOut step s as).2 ++ (step (runOut step s as).1 a).2) := by
  simp only [runOut_append, runOut_cons, runOut_nil, List.append_nil]

/-- **The invariant rule**, for a property of the state and of everything emitted so
far. The induction is from the right, so that the step case speaks about the last input
and all outputs before it. -/
theorem runOut_invariant (inv : S → List O → Prop) (s : S) (as : List A) (hs : inv s [])
    (hstep : ∀ t os, ∀ a ∈ as, inv t os → inv (step t a).1 (os ++ (step t a).2)) :
    inv (runOut step s as).1 (runOut step s as).2 := by
  induction as using List.reverseRecOn with
  | nil => exact hs
  | append_singleton as a ih =>
      rw [runOut_concat]
      exact hstep _ _ a (by simp) (ih (fun t os b hb => hstep t os b (by simp [hb])))

/-- **The history rule.** The same for a property that also speaks about the
inputs so far; a step may use which ones are still to come. -/
theorem runOut_history (inv : List A → S → List O → Prop) (s : S) (as : List A) (hs : inv [] s [])
    (hstep : ∀ pre a post, as = pre ++ a :: post → ∀ t os, inv pre t os →
      inv (pre ++ [a]) (step t a).1 (os ++ (step t a).2)) :
    inv as (runOut step s as).1 (runOut step s as).2 := by
  induction as using List.reverseRecOn with
  | nil => exact hs
  | append_singleton as a ih =>
      rw [runOut_concat]
      refine hstep as a [] rfl _ _ (ih ?_)
      intro pre b post hsplit t os hinv
      exact hstep pre b (post ++ [a]) (by rw [hsplit, List.append_assoc, List.cons_append]) t os hinv

/-- **The potential rule.** If in every step of a run what is emitted weighs the
input's share and the change of a potential, so it does in the run. -/
theorem runOut_potential {M : Type*} [AddCommGroup M] (weight : List O → M) (hnil : weight [] = 0)
    (happend : ∀ os os', weight (os ++ os') = weight os + weight os') (share : A → M)
    (potential : S → M) (s : S) (as : List A)
    (hstep : ∀ pre a post, as = pre ++ a :: post →
      weight (step (runOut step s pre).1 a).2
        = potential (step (runOut step s pre).1 a).1 - potential (runOut step s pre).1 + share a) :
    weight (runOut step s as).2
      = potential (runOut step s as).1 - potential s + (as.map share).sum := by
  induction as using List.reverseRecOn with
  | nil => rw [runOut_nil, hnil, List.map_nil, List.sum_nil, sub_self, add_zero]
  | append_singleton as a ih =>
      have hbefore := ih (fun pre b post hsplit =>
        hstep pre b (post ++ [a]) (by rw [hsplit, List.append_assoc, List.cons_append]))
      rw [runOut_concat, happend, hbefore, hstep as a [] rfl, List.map_append, List.sum_append,
        List.map_singleton, List.sum_singleton]
      abel

end Total

/-! ## Partial machines

Tasks are of this kind. A step is one thing a task can do next, and it is disabled when
the task is elsewhere, when a channel is empty or when it is full, so a list of steps is
a schedule and `exec` says whether it is a possible one. Every interleaving of the
development is a run of such a machine, and every result about interleavings is one of
the rules of this section applied to a lemma about one step. -/

section Partial

variable {S : Type u} {A : Type v}

/-- A run of a machine whose steps may be disabled. -/
def exec (step : S → A → Option S) : S → List A → Option S
  | s, [] => some s
  | s, a :: as => (step s a).bind (fun t => exec step t as)

variable (step : S → A → Option S)

/-- Nothing to do is always possible. -/
@[simp] theorem exec_nil (s : S) : exec step s [] = some s := rfl

/-- A run seen from its first step; the rest runs only if that step was enabled. -/
@[simp] theorem exec_cons (s : S) (a : A) (as : List A) :
    exec step s (a :: as) = (step s a).bind (fun t => exec step t as) := rfl

/-- A run can be cut anywhere, and the second part runs from where the first one got to.
-/
theorem exec_append (s : S) (as bs : List A) :
    exec step s (as ++ bs) = (exec step s as).bind (fun t => exec step t bs) := by
  induction as generalizing s with
  | nil => rfl
  | cons a as ih => simp only [List.cons_append, exec_cons, ih, Option.bind_assoc]

/-- A run seen from its last step. Extending a run by one step is how every machine that
contains another one carries a run of it along. -/
theorem exec_concat (s : S) (as : List A) (a : A) :
    exec step s (as ++ [a]) = (exec step s as).bind (fun t => step t a) := by
  rw [exec_append]
  congr 1
  funext t
  rw [exec_cons]
  cases step t a <;> rfl

/-- A run can be cut after any prefix, and the state in between is a state the machine
was really in. -/
theorem exec_append_eq_some (s t : S) (as bs : List A) (h : exec step s (as ++ bs) = some t) :
    ∃ m, exec step s as = some m ∧ exec step m bs = some t := by
  rw [exec_append] at h
  exact Option.bind_eq_some_iff.mp h

/-- **The invariant rule.** What holds at the start and is kept by every step that is
taken holds wherever the run ends. Only steps of the list are asked about, so a
hypothesis on them is available in the step case. -/
theorem exec_invariant (inv : S → Prop) (s t : S) (as : List A) (hs : inv s)
    (hstep : ∀ m n, ∀ a ∈ as, inv m → step m a = some n → inv n)
    (h : exec step s as = some t) : inv t := by
  induction as generalizing s with
  | nil =>
      rw [← Option.some.inj h]
      exact hs
  | cons a as ih =>
      obtain ⟨m, hm, hrest⟩ := Option.bind_eq_some_iff.mp h
      exact ih m (hstep s m a List.mem_cons_self hs hm)
        (fun m' n b hb => hstep m' n b (List.mem_cons_of_mem a hb)) hrest

/-- The guard holds at every step of a run, checked from the front. -/
def Along (guard : S → A → Prop) : S → List A → Prop
  | _, [] => True
  | s, a :: as => guard s a ∧ ∀ t, step s a = some t → Along guard t as

/-- `Along` says it from the front, which suits an induction over the run; the right
side says it for every prefix, which is how the results state it. The theorems about
runs are put together with this equivalence, so that a guard can be named either way. -/
theorem along_iff (guard : S → A → Prop) (s : S) (as : List A) :
    Along step guard s as ↔
      ∀ pre a suf t, as = pre ++ a :: suf → exec step s pre = some t → guard t a := by
  -- a guard at the head, and the rest from the state the head leads to
  induction as generalizing s with
  | nil =>
      refine iff_of_true trivial ?_
      intro pre a suf t hsplit
      simp at hsplit
  | cons b as ih =>
      constructor
      · rintro ⟨hb, hrest⟩ pre a suf t hsplit ht
        cases pre with
        | nil =>
            cases hsplit
            cases ht
            exact hb
        | cons c pre =>
            cases hsplit
            obtain ⟨m, hm, ht⟩ := Option.bind_eq_some_iff.mp ht
            exact (ih m).mp (hrest m hm) pre a suf t rfl ht
      · intro h
        refine ⟨h [] b as s rfl rfl, ?_⟩
        intro m hm
        apply (ih m).mpr
        intro pre a suf t hsplit ht
        exact h (b :: pre) a suf t (by rw [hsplit, List.cons_append])
          (Option.bind_eq_some_iff.mpr ⟨m, hm, ht⟩)

/-- **The guarded invariant rule.** What every step that meets the guard keeps
holds in every state of a run that meets it throughout. -/
theorem along_invariant (guard : S → A → Prop) (good : S → Prop)
    (hstep : ∀ m n a, good m → guard m a → step m a = some n → good n) (s : S) (as : List A)
    (hs : good s) (h : Along step guard s as) (pre suf : List A) (t : S) (hsplit : as = pre ++ suf)
    (ht : exec step s pre = some t) : good t := by
  induction pre generalizing s as with
  | nil =>
      rw [← Option.some.inj ht]
      exact hs
  | cons a pre ih =>
      subst hsplit
      obtain ⟨m, hm, ht⟩ := Option.bind_eq_some_iff.mp ht
      exact ih m (pre ++ suf) (hstep s m a hs h.1 hm) (h.2 m hm) rfl ht

/-- Guards that agree under an invariant hold along the same runs. -/
theorem along_congr (guard guard' : S → A → Prop) (inv : S → Prop)
    (hinv : ∀ m n a, inv m → step m a = some n → inv n)
    (h : ∀ m a, inv m → (guard m a ↔ guard' m a)) (s : S) (as : List A) (hs : inv s) :
    Along step guard s as ↔ Along step guard' s as := by
  induction as generalizing s with
  | nil => exact Iff.rfl
  | cons a as ih =>
      exact and_congr (h s a hs) (forall₂_congr fun t ht => ih t (hinv s t a hs ht))

/-- `t` can be reached from `s` by steps that all meet the guard. -/
def Reaches (guard : S → A → Prop) (s t : S) : Prop :=
  ∃ as, Along step guard s as ∧ exec step s as = some t

/-- Every state is reached from itself, by no steps, so under any guard. -/
theorem Reaches.refl (guard : S → A → Prop) (s : S) : Reaches step guard s s := ⟨[], trivial, rfl⟩

variable {step}

/-- One more step in front. Reachability is built from the back: what is to be shown
about a scheduler is that it can make this step now and the rest after it. -/
theorem Reaches.head {guard : S → A → Prop} {s m t : S} (a : A) (ha : guard s a)
    (hm : step s a = some m) (h : Reaches step guard m t) : Reaches step guard s t := by
  obtain ⟨as, halong, hrun⟩ := h
  refine ⟨a :: as, ⟨ha, ?_⟩, by rw [exec_cons, hm, Option.bind_some, hrun]⟩
  intro m' hm'
  rw [hm] at hm'
  cases hm'
  exact halong

/-- A weaker guard reaches no less. Steps of one task are found under the guard that
names the task, and are then steps under the guard of the result. -/
theorem Reaches.mono {guard guard' : S → A → Prop} {s t : S}
    (himp : ∀ m a, guard m a → guard' m a) (h : Reaches step guard s t) :
    Reaches step guard' s t := by
  obtain ⟨as, halong, hrun⟩ := h
  refine ⟨as, ?_, hrun⟩
  apply (along_iff step guard' s as).mpr
  intro pre a suf m hsplit hm
  exact himp m a ((along_iff step guard s as).mp halong pre a suf m hsplit hm)

/-- Ways compose. -/
theorem Reaches.trans {guard : S → A → Prop} {s m t : S} (h : Reaches step guard s m)
    (h' : Reaches step guard m t) : Reaches step guard s t := by
  obtain ⟨as, halong, hrun⟩ := h
  induction as generalizing s with
  | nil =>
      cases hrun
      exact h'
  | cons a as ih =>
      obtain ⟨n, hn, hrest⟩ := Option.bind_eq_some_iff.mp hrun
      exact .head a halong.1 hn (ih (halong.2 n hn) hrest)

/-- What every step that meets the guard keeps holds of all that can be
reached. -/
theorem Reaches.invariant {guard : S → A → Prop} {s t : S} (h : Reaches step guard s t)
    (good : S → Prop) (hs : good s)
    (hstep : ∀ m n a, good m → guard m a → step m a = some n → good n) : good t := by
  obtain ⟨as, halong, hrun⟩ := h
  exact along_invariant step guard good hstep s as hs halong as [] t (List.append_nil as).symm hrun

variable (step)

/-- Two lists of steps side by side: at each step of the first, `alike` relates
it to the one that takes its place in the second. -/
def Beside (alike : S → A → A → Prop) : S → List A → List A → Prop
  | _, [], [] => True
  | s, a :: as, b :: bs => alike s a b ∧ ∀ m, step s a = some m → Beside alike m as bs
  | _, _, _ => False

/-- Lists of alike steps are alike up to any point, which is what a statement about
every state of both runs needs. -/
theorem Beside.take {alike : S → A → A → Prop} {s : S} {as bs : List A}
    (h : Beside step alike s as bs) (n : Nat) : Beside step alike s (as.take n) (bs.take n) := by
  induction n generalizing s as bs with
  | zero =>
      rw [List.take_zero, List.take_zero]
      trivial
  | succ n ih =>
      cases as with
      | nil => cases bs with
        | nil => trivial
        | cons b bs => exact h.elim
      | cons a as => cases bs with
        | nil => exact h.elim
        | cons b bs => exact ⟨h.1, fun m hm => ih (h.2 m hm)⟩

/-- **The two-run rule.** If from related states alike steps lead to related
states, then so do lists of alike steps. -/
theorem exec_beside (rel : S → S → Prop) (alike : S → A → A → Prop)
    (hstep : ∀ s t m a b, rel s t → alike s a b → step s a = some m →
      ∃ n, step t b = some n ∧ rel m n)
    (s t m : S) (as bs : List A) (hst : rel s t) (h : Beside step alike s as bs)
    (hm : exec step s as = some m) : ∃ n, exec step t bs = some n ∧ rel m n := by
  induction as generalizing s t bs with
  | nil =>
      cases bs with
      | nil =>
          cases hm
          exact ⟨t, rfl, hst⟩
      | cons b bs => exact h.elim
  | cons a as ih =>
      cases bs with
      | nil => exact h.elim
      | cons b bs =>
          obtain ⟨m', hm', hrest⟩ := Option.bind_eq_some_iff.mp hm
          obtain ⟨n', hn', hrel⟩ := hstep s t m' a b hst h.1 hm'
          obtain ⟨n, hn, hfinal⟩ := ih m' n' bs hrel (h.2 m' hm') hrest
          exact ⟨n, by rw [exec_cons, hn', Option.bind_some, hn], hfinal⟩

/-- A run that ends with `a` is a run and a step. -/
theorem exec_concat_eq_some (s t : S) (as : List A) (a : A) :
    exec step s (as ++ [a]) = some t ↔ ∃ m, exec step s as = some m ∧ step m a = some t := by
  rw [exec_concat]
  exact Option.bind_eq_some_iff

/-- **The guard rule.** `strong` is kept by the steps that meet a guard, and a
step from a strong state that does not meet it leads to a state without `prop`.
Then a run has `prop` throughout exactly when every step of it meets the
guard. -/
theorem exec_kept_iff (strong prop : S → Prop) (guard : S → A → Prop) (s t : S) (as : List A)
    (hs : strong s) (hprop : ∀ m, strong m → prop m)
    (hkeep : ∀ m n a, strong m → guard m a → step m a = some n → strong n)
    (hbreak : ∀ m n a, strong m → step m a = some n → prop n → guard m a)
    (h : exec step s as = some t) :
    (∀ pre suf m, as = pre ++ suf → exec step s pre = some m → prop m) ↔
      (∀ pre a suf m, as = pre ++ a :: suf → exec step s pre = some m → guard m a) := by
  constructor
  · intro hall
    -- the run goes on past `a`, so `prop` is known at both ends of the step
    have hnext : ∀ pre a suf m, as = pre ++ a :: suf → exec step s pre = some m →
        ∃ n, step m a = some n ∧ prop n := by
      intro pre a suf m hsplit hm
      have hsplit' : as = (pre ++ [a]) ++ suf := by
        rw [hsplit, List.append_assoc, List.singleton_append]
      obtain ⟨n, hn, -⟩ := exec_append_eq_some step s t (pre ++ [a]) suf (hsplit' ▸ h)
      obtain ⟨m', hm', hstep⟩ := (exec_concat_eq_some step s n pre a).mp hn
      rw [hm] at hm'
      cases hm'
      exact ⟨n, hstep, hall _ suf n hsplit' hn⟩
    have hstrong : ∀ pre suf m, as = pre ++ suf → exec step s pre = some m → strong m := by
      intro pre
      induction pre using List.reverseRecOn with
      | nil =>
          rintro suf m - hm
          cases hm
          exact hs
      | append_singleton pre a ih =>
          intro suf n hsplit hn
          rw [List.append_assoc, List.singleton_append] at hsplit
          obtain ⟨m, hm, hstep⟩ := (exec_concat_eq_some step s n pre a).mp hn
          obtain ⟨n', hstep', hn'⟩ := hnext pre a suf m hsplit hm
          rw [hstep] at hstep'
          cases hstep'
          have hm_strong := ih (a :: suf) m hsplit hm
          exact hkeep m n a hm_strong (hbreak m n a hm_strong hstep hn') hstep
    intro pre a suf m hsplit hm
    obtain ⟨n, hstep, hn⟩ := hnext pre a suf m hsplit hm
    exact hbreak m n a (hstrong pre (a :: suf) m hsplit hm) hstep hn
  · intro hguard pre suf m hsplit hm
    apply hprop
    exact along_invariant step guard strong (fun m n a => hkeep m n a) s as hs
      ((along_iff step guard s as).mpr hguard) pre suf m hsplit hm

/-- The rule for a property that is itself kept: under an invariant, a step
from a good state leads to a good one exactly when it meets the guard. -/
theorem exec_guarded_iff (inv good : S → Prop) (guard : S → A → Prop) (s t : S) (as : List A)
    (hs : inv s) (hgood : good s)
    (hinv : ∀ m n a, inv m → step m a = some n → inv n)
    (hstep : ∀ m n a, inv m → good m → step m a = some n → (good n ↔ guard m a))
    (h : exec step s as = some t) :
    (∀ pre suf m, as = pre ++ suf → exec step s pre = some m → good m) ↔
      (∀ pre a suf m, as = pre ++ a :: suf → exec step s pre = some m → guard m a) :=
  exec_kept_iff step (fun m => inv m ∧ good m) good guard s t as ⟨hs, hgood⟩ (fun _ hm => hm.2)
    (fun m n a hm hg hn => ⟨hinv m n a hm.1 hn, (hstep m n a hm.1 hm.2 hn).mpr hg⟩)
    (fun m n a hm hn hgn => (hstep m n a hm.1 hm.2 hn).mp hgn) h

/-- The rule for a property that is never regained once it is lost: a run ends
with it exactly when every step of it meets the guard. -/
theorem exec_lasting_iff (inv good : S → Prop) (guard : S → A → Prop)
    (hinv : ∀ m n a, inv m → step m a = some n → inv n)
    (hstep : ∀ m n a, inv m → step m a = some n → (good n ↔ good m ∧ guard m a))
    (s t : S) (as : List A) (hs : inv s) (hgood : good s) (h : exec step s as = some t) :
    good t ↔ Along step guard s as := by
  have hall : good t ↔ good s ∧ Along step guard s as := by
    clear hgood
    induction as generalizing s with
    | nil =>
        cases h
        exact (and_iff_left trivial).symm
    | cons a as ih =>
        obtain ⟨m, hm, hrest⟩ := Option.bind_eq_some_iff.mp h
        rw [ih m (hinv s m a hs hm) hrest, hstep s m a hs hm, and_assoc]
        simp only [Along, hm, Option.some.injEq, forall_eq']
  rw [hall, and_iff_right hgood]

/-- A machine that can do more can do this too: a run of the restricted machine is a run
of the larger one, with the same states. -/
theorem exec_mono (step' : S → A → Option S)
    (himp : ∀ s t a, step' s a = some t → step s a = some t) (s t : S) (as : List A)
    (h : exec step' s as = some t) : exec step s as = some t := by
  induction as generalizing s with
  | nil => exact h
  | cons a as ih =>
      obtain ⟨m, hm, hrest⟩ := Option.bind_eq_some_iff.mp h
      rw [exec_cons, himp s m a hm, Option.bind_some]
      exact ih m hrest

/-- A part of the state that some steps move by a machine of its own, and the
other steps leave alone, runs through the steps that are about it. -/
theorem exec_project {T : Type*} {B : Type*} (step' : T → B → Option T) (part : S → T)
    (about : A → Option B)
    (hsome : ∀ s t a b, step s a = some t → about a = some b →
      step' (part s) b = some (part t))
    (hnone : ∀ s t a, step s a = some t → about a = none → part t = part s)
    (s t : S) (as : List A) (h : exec step s as = some t) :
    exec step' (part s) (as.filterMap about) = some (part t) := by
  induction as generalizing s with
  | nil => rw [← Option.some.inj h]; rfl
  | cons a as ih =>
      obtain ⟨m, hm, hrest⟩ := Option.bind_eq_some_iff.mp h
      cases ha : about a with
      | none =>
          rw [List.filterMap_cons_none ha, ← hnone s m a hm ha]
          exact ih m hrest
      | some b =>
          rw [List.filterMap_cons_some ha, exec_cons, hsome s m a b hm ha, Option.bind_some]
          exact ih m hrest

/-- **The progress rule.** If some step makes a measure smaller as long as the
machine is not done, then it can be run until it is. -/
theorem exec_reaches (measure : S → Nat) (done : S → Prop)
    (hprogress : ∀ s, ¬ done s → ∃ a t, step s a = some t ∧ measure t < measure s) (s : S) :
    ∃ as t, exec step s as = some t ∧ done t := by
  induction hn : measure s using Nat.strongRecOn generalizing s with
  | ind n ih =>
      by_cases hdone : done s
      · exact ⟨[], s, rfl, hdone⟩
      · obtain ⟨a, m, hstep, hlt⟩ := hprogress s hdone
        obtain ⟨as, t, hrest, ht⟩ := ih (measure m) (by rw [← hn]; exact hlt) m rfl
        exact ⟨a :: as, t, by rw [exec_cons, hstep, Option.bind_some, hrest], ht⟩

/-- **The rest rule.** Steps that all make a measure smaller are no more than it
was. -/
theorem exec_length_le (inv : S → Prop) (measure : S → Nat) (s t : S) (as : List A) (hs : inv s)
    (hstep : ∀ m n, ∀ a ∈ as, inv m → step m a = some n → inv n ∧ measure n < measure m)
    (h : exec step s as = some t) : as.length ≤ measure s := by
  induction as generalizing s with
  | nil => exact Nat.zero_le _
  | cons a as ih =>
      obtain ⟨m, hm, hrest⟩ := Option.bind_eq_some_iff.mp h
      obtain ⟨hinv, hlt⟩ := hstep s m a List.mem_cons_self hs hm
      have hle := ih m hinv (fun m' n b hb => hstep m' n b (List.mem_cons_of_mem a hb)) hrest
      exact Nat.succ_le_of_lt (Nat.lt_of_le_of_lt hle hlt)

/-- **The cost rule.** Where no step raises a measure by more than its cost, no
run raises it by more than the costs of its steps. -/
theorem exec_cost_le (inv : S → Prop) (measure : S → Nat) (cost : A → Nat) (s t : S) (as : List A)
    (hs : inv s)
    (hstep : ∀ m n a, inv m → step m a = some n → inv n ∧ measure n ≤ measure m + cost a)
    (h : exec step s as = some t) : measure t ≤ measure s + (as.map cost).sum := by
  induction as generalizing s with
  | nil =>
      cases h
      exact Nat.le_add_right _ _
  | cons a as ih =>
      obtain ⟨m, hm, hrest⟩ := Option.bind_eq_some_iff.mp h
      obtain ⟨hinv, hle⟩ := hstep s m a hs hm
      have hrun := ih m hinv hrest
      rw [List.map_cons, List.sum_cons]
      omega

end Partial

/-! ## The last word

Many readings of a state are decided by the latest event that concerns them: whether a
key is down, which screen was entered, which command was given. Such a reading is a
fold, and it equals the last word of the history (`foldl_last_word`); what the last word
is can then be said without the fold. -/

section LastWord

variable {E : Type u} {V : Type v} (word : E → Option V)

/-- What the last of the events that say anything says. -/
def last_word (es : List E) : Option V := es.foldl (fun last e => (word e).or last) none

/-- Nobody has spoken. -/
@[simp] theorem last_word_nil : last_word word [] = none := rfl

/-- The latest event decides, if it says anything. -/
@[simp] theorem last_word_concat (es : List E) (e : E) :
    last_word word (es ++ [e]) = (word e).or (last_word word es) := by
  simp [last_word]

/-- A reading that every event either sets or leaves is in the end what the
last word says. -/
theorem foldl_last_word {S : Type w} (step : S → E → S) (read : S → V)
    (hstep : ∀ s e, read (step s e) = (word e).getD (read s)) (s : S) (es : List E) :
    read (es.foldl step s) = (last_word word es).getD (read s) := by
  induction es using List.reverseRecOn with
  | nil => rfl
  | append_singleton es e ih =>
      rw [List.foldl_append, List.foldl_cons, List.foldl_nil, hstep, ih, last_word_concat]
      cases word e <;> rfl

/-- The last word spelled out: some event says `v`, and everything after it is silent.
This is the form in which a result names the event, for instance the press after which a
key was not released. -/
theorem last_word_eq_some_iff (es : List E) (v : V) :
    last_word word es = some v ↔
      ∃ pre e post, es = pre ++ e :: post ∧ word e = some v ∧ ∀ e' ∈ post, word e' = none := by
  -- from the end: the last element decides, or is silent and leaves it to those before
  induction es using List.reverseRecOn with
  | nil =>
      constructor
      · rintro ⟨⟩
      · rintro ⟨pre, e, post, hsplit, -⟩
        cases pre <;> cases hsplit
  | append_singleton es e ih =>
      rw [last_word_concat]
      constructor
      · intro h
        cases he : word e with
        | some v' =>
            rw [he, Option.some_or] at h
            exact ⟨es, e, [], rfl, by rw [he, h], by rintro _ ⟨⟩⟩
        | none =>
            rw [he, Option.none_or] at h
            obtain ⟨pre, d, post, rfl, hd, hpost⟩ := ih.mp h
            refine ⟨pre, d, post ++ [e], by simp, hd, ?_⟩
            intro e' he'
            rcases List.mem_append.mp he' with he' | he'
            · exact hpost e' he'
            · rw [List.mem_singleton.mp he', he]
      · rintro ⟨pre, d, post, hsplit, hd, hpost⟩
        rcases List.eq_nil_or_concat post with rfl | ⟨post, e', rfl⟩
        · obtain ⟨-, hlast⟩ := List.append_inj' hsplit rfl
          obtain rfl := List.singleton_inj.mp hlast
          rw [hd, Option.some_or]
        · rw [List.concat_eq_append] at hpost hsplit
          rw [← List.cons_append, ← List.append_assoc] at hsplit
          obtain ⟨rfl, hlast⟩ := List.append_inj' hsplit rfl
          obtain rfl := List.singleton_inj.mp hlast
          rw [hpost e (by simp), Option.none_or]
          exact ih.mpr ⟨pre, d, post, rfl, hd, fun x hx => hpost x (by simp [hx])⟩

/-- The later part of a history decides, if anything in it speaks. -/
theorem last_word_append (es es' : List E) :
    last_word word (es ++ es') = (last_word word es').or (last_word word es) := by
  induction es' using List.reverseRecOn with
  | nil => rw [List.append_nil, last_word_nil, Option.none_or]
  | append_singleton es' e ih =>
      rw [← List.append_assoc, last_word_concat, last_word_concat, ih, Option.or_assoc]

/-- There is no last word exactly when nobody said anything. -/
theorem last_word_eq_none_iff (es : List E) :
    last_word word es = none ↔ ∀ e ∈ es, word e = none := by
  induction es using List.reverseRecOn with
  | nil => simp
  | append_singleton es e ih =>
      rw [last_word_concat, Option.or_eq_none_iff, ih, List.forall_mem_append, and_comm]
      simp

/-- The last word is not `v` when every `v` is taken back. -/
theorem last_word_ne_iff (es : List E) (v : V) :
    last_word word es ≠ some v ↔
      ∀ pre e post, es = pre ++ e :: post → word e = some v →
        ∃ e' ∈ post, ∃ v', v' ≠ v ∧ word e' = some v' := by
  -- after an element that says `v` there must be one that says something else, or else
  -- `v` would be the last word
  constructor
  · rintro hne pre e post rfl he
    have hlast : last_word word (pre ++ e :: post) = (last_word word post).or (some v) := by
      rw [← List.singleton_append, ← List.append_assoc, last_word_append, last_word_concat, he,
        Option.some_or]
    rw [hlast] at hne
    cases hpost : last_word word post with
    | none =>
        rw [hpost, Option.none_or] at hne
        exact absurd rfl hne
    | some v' =>
        rw [hpost, Option.some_or] at hne
        obtain ⟨pre', e', post', rfl, he', -⟩ := (last_word_eq_some_iff word post v').mp hpost
        exact ⟨e', by simp, v', fun hv => hne (by rw [hv]), he'⟩
  · intro h hlast
    obtain ⟨pre, e, post, rfl, he, hpost⟩ := (last_word_eq_some_iff word es v).mp hlast
    obtain ⟨e', hmem, v', -, he'⟩ := h pre e post rfl he
    rw [hpost e' hmem] at he'
    cases he'

end LastWord

/-! ## Merges

A list of tagged items is one interleaving of the streams its tags select. Senders that
keep their own order but not each other's are therefore all the lists with the given
projections, and `merge_simulates` is how something that depends on one stream only is
shown to be independent of the rest. -/

section Merge

variable {ι : Type u} {S : Type v} {A : Type w} {O : Type w} (step : S → A → S × List O)

/-- The machine on tagged inputs; an output carries the tag of its input. -/
def tagged (s : S) (it : ι × A) : S × List (ι × O) :=
  ((step s it.2).1, (step s it.2).2.map (fun o => (it.1, o)))

variable [DecidableEq ι]

/-- The stream of `σ` in a merge. -/
def select {B : Type w} (σ : ι) (items : List (ι × B)) : List B :=
  items.filterMap (fun it => if it.1 = σ then some it.2 else none)

/-- The empty merge has empty streams. -/
@[simp] theorem select_nil {B : Type w} (σ : ι) : select σ ([] : List (ι × B)) = [] := rfl

/-- The stream of a merge in two parts is in the same two parts. -/
theorem select_append {B : Type w} (σ : ι) (xs ys : List (ι × B)) :
    select σ (xs ++ ys) = select σ xs ++ select σ ys := List.filterMap_append

/-- The next item of a stream. -/
theorem select_cons_self {B : Type w} (σ : ι) (b : B) (items : List (ι × B)) :
    select σ ((σ, b) :: items) = b :: select σ items := by
  simp [select]

/-- An item of another stream is not seen. -/
theorem select_cons_ne {B : Type w} (σ τ : ι) (h : τ ≠ σ) (b : B) (items : List (ι × B)) :
    select σ ((τ, b) :: items) = select σ items := by
  simp [select, h]

/-- What is in a stream was tagged with it; no item is invented by the projection. -/
theorem mem_select {B : Type w} (σ : ι) (b : B) (items : List (ι × B)) :
    b ∈ select σ items ↔ (σ, b) ∈ items := by
  simp [select]

/-- A merge in which one sender sends everything has its stream. -/
theorem select_map_self {B : Type w} (σ : ι) (bs : List B) :
    select σ (bs.map (fun b => (σ, b))) = bs := by
  induction bs with
  | nil => rfl
  | cons b bs ih => rw [List.map_cons, select_cons_self, ih]

/-- Such a merge has nothing of any other sender. -/
theorem select_map_ne {B : Type w} (σ τ : ι) (h : τ ≠ σ) (bs : List B) :
    select σ (bs.map (fun b => (τ, b))) = [] := by
  induction bs with
  | nil => rfl
  | cons b bs ih => rw [List.map_cons, select_cons_ne σ τ h, ih]

/-- **The merge rule.** `R pre σ` relates the machine after the merge `pre` to
the one that only saw the stream of `σ`. If under a guard the input of a
stream keeps the relation for that stream, with equal outputs, and disturbs
the relation of no other one, then in a merge that meets the guard throughout
each stream gets what it would get alone. -/
theorem merge_simulates (guard : List (ι × A) → ι × A → Prop)
    (R : List (ι × A) → ι → S → S → Prop) (s₀ : S) (items : List (ι × A))
    (hstart : ∀ σ, R [] σ s₀ s₀)
    (hown : ∀ pre σ a s t, guard pre (σ, a) → R pre σ s t →
      (step s a).2 = (step t a).2 ∧ R (pre ++ [(σ, a)]) σ (step s a).1 (step t a).1)
    (hother : ∀ pre σ τ a s t u, τ ≠ σ → guard pre (σ, a) → R pre σ s t → R pre τ s u →
      R (pre ++ [(σ, a)]) τ (step s a).1 u)
    (hguard : ∀ pre it post, items = pre ++ it :: post → guard pre it) (σ : ι) :
    select σ (runOut (tagged step) s₀ items).2 = (runOut step s₀ (select σ items)).2 ∧
      R items σ (runOut (tagged step) s₀ items).1 (runOut step s₀ (select σ items)).1 := by
  -- item by item; an item of this tag is a step on both sides; any other is one only
  -- for the merged run
  induction items using List.reverseRecOn generalizing σ with
  | nil => exact ⟨rfl, hstart σ⟩
  | append_singleton items it ih =>
      have hinit : ∀ pre it' post, items = pre ++ it' :: post → guard pre it' := by
        intro pre it' post hsplit
        exact hguard pre it' (post ++ [it]) (by rw [hsplit, List.append_assoc, List.cons_append])
      have hit : guard items it := hguard items it [] rfl
      obtain ⟨ρ, a⟩ := it
      rw [runOut_concat, select_append, select_append]
      by_cases hσ : ρ = σ
      · subst hσ
        obtain ⟨hout, hrel⟩ := ih hinit ρ
        obtain ⟨hsame, hnext⟩ := hown items ρ a _ _ hit hrel
        rw [select_cons_self, select_nil, runOut_concat]
        refine ⟨?_, hnext⟩
        rw [hout, tagged, select_map_self, hsame]
      · obtain ⟨hout, hrel⟩ := ih hinit σ
        rw [select_cons_ne σ ρ hσ, select_nil, List.append_nil]
        refine ⟨?_, hother items ρ σ a _ _ _ (Ne.symm hσ) hit (ih hinit ρ).2 hrel⟩
        rw [hout, tagged, select_map_ne σ ρ hσ, List.append_nil]

end Merge

end InputSync
