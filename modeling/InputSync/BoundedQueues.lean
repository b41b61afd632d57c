/-
Bounded queues and the tasks that empty them.

Every queue has one task that takes messages from it, one at a time, and puts
what it makes of each into the queue `next`, waiting while that is full. The
number of messages in queues and hands is the `load`. Tasks never raise it;
only who puts in from outside does.

If following `next` leads from every queue to every other, the tasks form a
ring, and `stuck_iff_full` says when it stands still with messages in it: when
it holds as many as it can.
-/
import Mathlib.Algebra.BigOperators.Pi
import Mathlib.Algebra.BigOperators.Ring.Finset
import Mathlib.Algebra.Order.BigOperators.Group.Finset
import Mathlib.Data.PNat.Basic
import Mathlib.Data.Fintype.Basic

set_option autoImplicit false

namespace InputSync

universe u v

/-! ## Queues and tasks

A plumbing is a function on the names of the queues, so each queue feeds one other. That
covers a pipeline, a ring and several of them side by side; a task that writes to two
queues is beyond it. -/

/-- Where the task of each queue puts what it makes of a message, how much
each queue holds, and what the task makes of a message. -/
structure Plumbing (ι : Type u) (M : Type v) where
  next : ι → ι
  capacity : ι → ℕ+
  received : ι → M → Option M

/-- The queues, and what the task of each has in hand. -/
structure Queues (ι : Type u) (M : Type v) where
  queue : ι → List M
  hand : ι → Option M

namespace Queues

variable {ι : Type u} {M : Type v} (net : Plumbing ι M)

/-- Nothing in any queue, and nothing in hand. -/
def empty : Queues ι M := ⟨fun _ => [], fun _ => none⟩

/-- No queue holds more than it may. -/
def Bounded (self : Queues ι M) : Prop := ∀ i, (self.queue i).length ≤ net.capacity i

/-- Empty queues are within their bounds. -/
theorem bounded_empty : (empty : Queues ι M).Bounded net := fun _ => Nat.zero_le _

variable [DecidableEq ι]

/-- A message is put into a queue; `none` while it is full. -/
def enqueue (self : Queues ι M) (i : ι) (m : M) : Option (Queues ι M) :=
  if (self.queue i).length < net.capacity i then
    some { self with queue := Function.update self.queue i (self.queue i ++ [m]) }
  else none

/-- The task of `i` takes the next message from its queue. -/
def take (self : Queues ι M) (i : ι) : Option (Queues ι M) :=
  match self.hand i, self.queue i with
  | none, m :: rest =>
    some { queue := Function.update self.queue i rest
           hand := Function.update self.hand i (net.received i m) }
  | _, _ => none

/-- It puts what it has in hand into the next queue. -/
def put (self : Queues ι M) (i : ι) : Option (Queues ι M) :=
  match self.hand i with
  | some m =>
    (self.enqueue net (net.next i) m).map
      (fun s => { s with hand := Function.update s.hand i none })
  | none => none

/-- The task of `i` can do neither. -/
def Blocked (self : Queues ι M) (i : ι) : Prop := self.take net i = none ∧ self.put net i = none

/-! ## What a step can do

The inversion lemmas, and the bounds they keep. -/

variable {net} {self next : Queues ι M} {i : ι} {m : M}

/-- The inversion of the three operations. A user of this file meets an operation only
as the hypothesis that it succeeded, and these lemmas say what it then found and left.
-/
theorem enqueue_eq_some (h : self.enqueue net i m = some next) :
    (self.queue i).length < net.capacity i ∧
      next = { self with queue := Function.update self.queue i (self.queue i ++ [m]) } := by
  unfold enqueue at h
  split_ifs at h with hroom
  exact ⟨hroom, (Option.some.inj h).symm⟩

/-- A task takes only with an empty hand, and what it makes of the message may be
nothing. -/
theorem take_eq_some (h : self.take net i = some next) :
    ∃ m rest, self.hand i = none ∧ self.queue i = m :: rest ∧
      next = { queue := Function.update self.queue i rest
               hand := Function.update self.hand i (net.received i m) } := by
  unfold take at h
  split at h
  · rename_i m rest hhand hqueue
    exact ⟨m, rest, hhand, hqueue, (Option.some.inj h).symm⟩
  · cases h

/-- A task puts what it holds into its successor, which had room. -/
theorem put_eq_some (h : self.put net i = some next) :
    ∃ m, self.hand i = some m ∧ (self.queue (net.next i)).length < net.capacity (net.next i) ∧
      next = { queue := Function.update self.queue (net.next i) (self.queue (net.next i) ++ [m])
               hand := Function.update self.hand i none } := by
  unfold put at h
  split at h
  · rename_i m hhand
    obtain ⟨s, hs, rfl⟩ := Option.map_eq_some_iff.mp h
    obtain ⟨hroom, rfl⟩ := enqueue_eq_some hs
    exact ⟨m, hhand, hroom, rfl⟩
  · cases h

/-- A task with empty hands waits for its queue, one with a message for the
next. -/
theorem blocked_iff : self.Blocked net i ↔
    (self.hand i = none ∧ self.queue i = []) ∨
      (self.hand i ≠ none ∧ net.capacity (net.next i) ≤ (self.queue (net.next i)).length) := by
  unfold Blocked take put
  cases hhand : self.hand i with
  | none => cases hqueue : self.queue i <;> simp
  | some m => simp [enqueue]

/-- Each operation keeps the bounds: an enqueue checks its own, -/
theorem Bounded.enqueue (hb : self.Bounded net) (h : self.enqueue net i m = some next) :
    next.Bounded net := by
  obtain ⟨hroom, rfl⟩ := enqueue_eq_some h
  intro j
  by_cases hj : j = i
  · subst hj
    simpa using Nat.succ_le_iff.mpr hroom
  · simpa [Function.update_of_ne hj] using hb j

/-- a take only shortens a queue, -/
theorem Bounded.take (hb : self.Bounded net) (h : self.take net i = some next) :
    next.Bounded net := by
  obtain ⟨m, rest, -, hqueue, rfl⟩ := take_eq_some h
  intro j
  by_cases hj : j = i
  · subst hj
    have hlen := hb j
    rw [hqueue, List.length_cons] at hlen
    simpa using Nat.le_of_succ_le hlen
  · simpa [Function.update_of_ne hj] using hb j

/-- and a put is an enqueue by a task. -/
theorem Bounded.put (hb : self.Bounded net) (h : self.put net i = some next) :
    next.Bounded net := by
  obtain ⟨m, hhand, hroom, rfl⟩ := put_eq_some h
  have henq : self.enqueue net (net.next i) m = some ⟨Function.update self.queue (net.next i)
      (self.queue (net.next i) ++ [m]), self.hand⟩ := by
    rw [Queues.enqueue, if_pos hroom]
  -- the hands do not count
  have hnext := hb.enqueue henq
  exact fun j => hnext j

/-- A task with messages in its queue that takes none has one in hand. -/
theorem hand_of_take_eq_none (h : self.take net i = none) (hqueue : self.queue i ≠ []) :
    self.hand i ≠ none := by
  intro hhand
  obtain ⟨m, rest, hcons⟩ := List.exists_cons_of_ne_nil hqueue
  simp [take, hhand, hcons] at h

/-! ## What the messages are

A property of the messages at each place is kept along the way when the tasks respect
it. It is used to say which kinds of message can be in which queue. -/

/-- What is known of the messages in a queue, and in the hands of its task. -/
structure Contents (P P' : ι → M → Prop) (qs : Queues ι M) : Prop where
  queue : ∀ i, ∀ m ∈ qs.queue i, P i m
  hand : ∀ i m, qs.hand i = some m → P' i m

namespace Contents

variable {P P' : ι → M → Prop}

/-- What is known of the messages is kept if it is known of the one put in, -/
theorem enqueue (hc : Contents P P' self) (hm : P i m) (h : self.enqueue net i m = some next) :
    Contents P P' next := by
  obtain ⟨-, rfl⟩ := enqueue_eq_some h
  refine ⟨?_, hc.hand⟩
  intro j x hx
  by_cases hj : j = i
  · subst hj
    simp only [Function.update_self, List.mem_append, List.mem_singleton] at hx
    rcases hx with hx | rfl
    · exact hc.queue j x hx
    · exact hm
  · simp only [Function.update_of_ne hj] at hx
    exact hc.queue j x hx

/-- if what the task makes of a message is as expected in its hand, -/
theorem take (hc : Contents P P' self) (hm : ∀ m m', P i m → net.received i m = some m' → P' i m')
    (h : self.take net i = some next) : Contents P P' next := by
  obtain ⟨m, rest, -, hqueue, rfl⟩ := take_eq_some h
  constructor
  · intro j x hx
    by_cases hj : j = i
    · subst hj
      simp only [Function.update_self] at hx
      exact hc.queue j x (by rw [hqueue]; exact List.mem_cons_of_mem m hx)
    · simp only [Function.update_of_ne hj] at hx
      exact hc.queue j x hx
  · intro j x hx
    by_cases hj : j = i
    · subst hj
      simp only [Function.update_self] at hx
      exact hm m x (hc.queue j m (by rw [hqueue]; exact List.mem_cons_self)) hx
    · simp only [Function.update_of_ne hj] at hx
      exact hc.hand j x hx

/-- and if what is in a hand is as expected in the queue it goes to. -/
theorem put (hc : Contents P P' self) (hm : ∀ m, P' i m → P (net.next i) m)
    (h : self.put net i = some next) : Contents P P' next := by
  obtain ⟨m, hhand, hroom, rfl⟩ := put_eq_some h
  have henq : self.enqueue net (net.next i) m = some ⟨Function.update self.queue (net.next i)
      (self.queue (net.next i) ++ [m]), self.hand⟩ := by
    rw [Queues.enqueue, if_pos hroom]
  refine ⟨(hc.enqueue (hm m (hc.hand i m hhand)) henq).queue, ?_⟩
  intro j x hx
  by_cases hj : j = i
  · subst hj
    simp only [Function.update_self] at hx
    cases hx
  · simp only [Function.update_of_ne hj] at hx
    exact hc.hand j x hx

end Contents

/-! ## Weights

Sums over all places, for arguments by counting: how many messages there are, and how
far they have to go. -/

section Weights

variable {ι : Type u} {M : Type v} [Fintype ι] {net : Plumbing ι M} {self next : Queues ι M} {i : ι}
  {m : M}

/-- Messages in queues and hands, each counted with the weight of its place:
`w i` in the queue `i`, and `w' i` in the hands of its task. -/
def weight (w w' : ι → Nat) (self : Queues ι M) : Nat :=
  ∑ i, w i * (self.queue i).length + ∑ i, w' i * (self.hand i).toList.length

/-- The number of messages in queues and hands. -/
def load (self : Queues ι M) : Nat := self.weight (fun _ => 1) (fun _ => 1)

/-- No load means nothing anywhere, so a bound on the load that reaches zero empties
every queue. -/
theorem load_eq_zero_iff :
    self.load = 0 ↔ (∀ i, self.queue i = []) ∧ ∀ i, self.hand i = none := by
  unfold load weight
  simp only [Nat.one_mul, Nat.add_eq_zero_iff, Finset.sum_eq_zero_iff, Finset.mem_univ,
    true_imp_iff, List.length_eq_zero_iff, Option.toList_eq_nil_iff]

/-- Full queues and full hands weigh the most. -/
theorem weight_le (w w' : ι → Nat) (hb : self.Bounded net) :
    self.weight w w' ≤ ∑ i, w i * net.capacity i + ∑ i, w' i := by
  apply Nat.add_le_add
  · exact Finset.sum_le_sum (fun i _ => Nat.mul_le_mul_left (w i) (hb i))
  · apply Finset.sum_le_sum
    intro i _
    cases self.hand i <;> simp

variable [DecidableEq ι]

/-- A sum over places when one place changes. The old term stands on the other side
because truncated subtraction would get in the way of every use. -/
theorem sum_update {α : Type v} (g : ι → α → Nat) (f : ι → α) (i : ι) (x : α) :
    ∑ j, g j (Function.update f i x j) + g i (f i) = ∑ j, g j (f j) + g i x := by
  have hothers : ∑ j ∈ Finset.univ.erase i, g j (Function.update f i x j)
      = ∑ j ∈ Finset.univ.erase i, g j (f j) := by
    apply Finset.sum_congr rfl
    intro j hj
    rw [Function.update_of_ne (Finset.ne_of_mem_erase hj)]
  rw [← Finset.add_sum_erase _ _ (Finset.mem_univ i),
    ← Finset.add_sum_erase _ (fun j => g j (f j)) (Finset.mem_univ i), hothers,
    Function.update_self]
  omega

/-- What each operation does to the weight. An enqueue adds the weight of the queue, -/
theorem weight_enqueue (w w' : ι → Nat) (h : self.enqueue net i m = some next) :
    next.weight w w' = self.weight w w' + w i := by
  obtain ⟨-, rfl⟩ := enqueue_eq_some h
  have hqueue := sum_update (fun j (q : List M) => w j * q.length) self.queue i
    (self.queue i ++ [m])
  rw [List.length_append, List.length_singleton, Nat.mul_add, Nat.mul_one] at hqueue
  unfold weight
  dsimp only
  omega

/-- a take exchanges it for the weight of the hand, or for nothing, -/
theorem weight_take (w w' : ι → Nat) (h : self.take net i = some next) :
    ∃ m, self.queue i = m :: next.queue i ∧
      next.weight w w' + w i
        = self.weight w w' + w' i * (net.received i m).toList.length := by
  obtain ⟨m, rest, hhand, hqueue, rfl⟩ := take_eq_some h
  have hq := sum_update (fun j (q : List M) => w j * q.length) self.queue i rest
  have hh := sum_update (fun j (o : Option M) => w' j * o.toList.length) self.hand i
    (net.received i m)
  refine ⟨m, by rw [hqueue]; simp, ?_⟩
  rw [hqueue, List.length_cons, Nat.mul_add, Nat.mul_one] at hq
  rw [hhand, Option.toList_none, List.length_nil, Nat.mul_zero] at hh
  unfold weight
  dsimp only
  omega

/-- and a put exchanges the weight of the hand for that of the next queue. The load is
the special case of weight one, which a put leaves alone and a take never raises. -/
theorem weight_put (w w' : ι → Nat) (h : self.put net i = some next) :
    next.weight w w' + w' i = self.weight w w' + w (net.next i) := by
  obtain ⟨m, hhand, -, rfl⟩ := put_eq_some h
  have hq := sum_update (fun j (q : List M) => w j * q.length) self.queue (net.next i)
    (self.queue (net.next i) ++ [m])
  have hh := sum_update (fun j (o : Option M) => w' j * o.toList.length) self.hand i none
  rw [List.length_append, List.length_singleton, Nat.mul_add, Nat.mul_one] at hq
  rw [hhand, Option.toList_none, Option.toList_some, List.length_nil, List.length_singleton,
    Nat.mul_zero, Nat.mul_one] at hh
  unfold weight
  dsimp only
  omega

/-- How far the messages still have to go, where one in the queue `i` has `w i`
before it. One in hand is a step away from the queue it goes to. -/
def to_go (net : Plumbing ι M) (w : ι → M → Nat) (self : Queues ι M) : Nat :=
  ∑ i, ((self.queue i).map (w i)).sum
    + ∑ i, (self.hand i).elim 0 (fun m => w (net.next i) m + 1)

/-- A task whose messages get nearer their end brings the whole nearer. -/
theorem to_go_take (w : ι → M → Nat)
    (hw : ∀ m, (net.received i m).elim 0 (fun m => w (net.next i) m + 1) < w i m)
    (h : self.take net i = some next) : next.to_go net w < self.to_go net w := by
  obtain ⟨m, rest, hhand, hqueue, rfl⟩ := take_eq_some h
  have hq := sum_update (fun j (q : List M) => (q.map (w j)).sum) self.queue i rest
  have hh := sum_update (fun j (o : Option M) => o.elim 0 (fun m => w (net.next j) m + 1)) self.hand i
    (net.received i m)
  have hm := hw m
  rw [hqueue, List.map_cons, List.sum_cons] at hq
  rw [hhand, Option.elim_none] at hh
  unfold to_go
  dsimp only at hq hh ⊢
  omega

/-- Putting a message down brings it one step nearer to where it ends. -/
theorem to_go_put (w : ι → M → Nat) (h : self.put net i = some next) :
    next.to_go net w < self.to_go net w := by
  obtain ⟨m, hhand, -, rfl⟩ := put_eq_some h
  have hq := sum_update (fun j (q : List M) => (q.map (w j)).sum) self.queue (net.next i)
    (self.queue (net.next i) ++ [m])
  have hh := sum_update (fun j (o : Option M) => o.elim 0 (fun m => w (net.next j) m + 1)) self.hand i
    none
  rw [List.map_append, List.sum_append, List.map_singleton, List.sum_singleton] at hq
  rw [hhand, Option.elim_some, Option.elim_none] at hh
  unfold to_go
  dsimp only at hq hh ⊢
  omega

omit [DecidableEq ι] in
/-- With at most `n` before each message, at most `n` for each is left. -/
theorem to_go_le (w : ι → M → Nat) (n : Nat) (hqueue : ∀ i, ∀ m ∈ self.queue i, w i m ≤ n)
    (hhand : ∀ i m, self.hand i = some m → w (net.next i) m + 1 ≤ n) :
    self.to_go net w ≤ n * self.load := by
  unfold to_go load weight
  rw [Nat.mul_add, Finset.mul_sum, Finset.mul_sum]
  apply Nat.add_le_add
  · apply Finset.sum_le_sum
    intro i _
    have hsum := List.sum_le_card_nsmul ((self.queue i).map (w i)) n (by
      intro x hx
      obtain ⟨m, hm, rfl⟩ := List.mem_map.mp hx
      exact hqueue i m hm)
    rw [List.length_map, smul_eq_mul, Nat.mul_comm] at hsum
    rwa [Nat.one_mul]
  · apply Finset.sum_le_sum
    intro i _
    cases hi : self.hand i with
    | none => exact Nat.zero_le _
    | some m => simpa using hhand i m hi

end Weights

/-! ## Messages on the way

Order is about one path. A trail lists what is on it from its end backwards, so that an
operation changes it at one end or not at all. -/

section Trail

variable {ι : Type u} {M : Type v} {L : Type*} (net : Plumbing ι M) (label : ι → M → Option L)

/-- The labels of the messages on the way along `path`, the oldest first. A
message in hand has the label it will have in the queue it goes to. -/
def trail (self : Queues ι M) : List ι → List L
  | [] => []
  | i :: path =>
    self.trail path ++ ((self.hand i).bind (label (net.next i))).toList
      ++ (self.queue i).filterMap (label i)

variable {net label} {self next : Queues ι M} {i j : ι} {m : M}

/-- A trail can be cut where its path can. What is further along the path entered
earlier, hence the order. -/
theorem trail_append (path path' : List ι) :
    self.trail net label (path ++ path') = self.trail net label path' ++ self.trail net label path := by
  induction path with
  | nil => rw [List.nil_append, trail, List.append_nil]
  | cons i path ih => rw [List.cons_append, trail, trail, ih, List.append_assoc, List.append_assoc,
      List.append_assoc]

/-- The labels of a queue when one message is appended. -/
theorem filterMap_concat (f : M → Option L) (ms : List M) (m : M) :
    (ms ++ [m]).filterMap f = ms.filterMap f ++ (f m).toList := by
  rw [List.filterMap_append]
  cases hm : f m <;> simp [hm]

/-- A trail depends on the queues and hands of its path only. -/
theorem trail_congr (path : List ι) (hqueue : ∀ i ∈ path, next.queue i = self.queue i)
    (hhand : ∀ i ∈ path, next.hand i = self.hand i) :
    next.trail net label path = self.trail net label path := by
  induction path with
  | nil => rfl
  | cons i path ih =>
      rw [trail, trail, hqueue i List.mem_cons_self, hhand i List.mem_cons_self,
        ih (fun j hj => hqueue j (List.mem_cons_of_mem i hj))
          (fun j hj => hhand j (List.mem_cons_of_mem i hj))]

/-- Nothing on the path leaves no trail. -/
theorem trail_eq_nil (path : List ι) (hqueue : ∀ i ∈ path, self.queue i = [])
    (hhand : ∀ i ∈ path, self.hand i = none) : self.trail net label path = [] := by
  induction path with
  | nil => rfl
  | cons i path ih =>
      rw [trail, hqueue i List.mem_cons_self, hhand i List.mem_cons_self,
        ih (fun j hj => hqueue j (List.mem_cons_of_mem i hj))
          (fun j hj => hhand j (List.mem_cons_of_mem i hj))]
      rfl

variable [DecidableEq ι]

/-- A label that enters where the path begins is the last of its trail. -/
theorem trail_enqueue_head (path : List ι) (hpath : (i :: path).Nodup)
    (h : self.enqueue net i m = some next) :
    next.trail net label (i :: path) = self.trail net label (i :: path) ++ (label i m).toList := by
  obtain ⟨-, rfl⟩ := enqueue_eq_some h
  have hi : ∀ j ∈ path, j ≠ i := fun j hj hji => (List.nodup_cons.mp hpath).1 (hji ▸ hj)
  have hrest : trail net label
      { self with queue := Function.update self.queue i (self.queue i ++ [m]) } path
        = self.trail net label path :=
    trail_congr path (fun j hj => Function.update_of_ne (hi j hj) _ _) (fun _ _ => rfl)
  rw [trail, trail, hrest]
  simp only [Function.update_self, filterMap_concat,
    List.append_assoc]

/-- What has no label leaves no trace. -/
theorem trail_enqueue_none (path : List ι) (hm : label i m = none)
    (h : self.enqueue net i m = some next) :
    next.trail net label path = self.trail net label path := by
  obtain ⟨-, rfl⟩ := enqueue_eq_some h
  induction path with
  | nil => rfl
  | cons j path ih =>
      rw [trail, trail, ih]
      congr 1
      by_cases hj : j = i
      · subst hj
        simp only [Function.update_self, filterMap_concat, hm,
          Option.toList_none, List.append_nil]
      · simp only [Function.update_of_ne hj]

/-- A task that keeps the label of what it takes moves nothing on. -/
theorem trail_take (path : List ι)
    (hlabel : ∀ m ∈ self.queue i, (net.received i m).bind (label (net.next i)) = label i m)
    (h : self.take net i = some next) :
    next.trail net label path = self.trail net label path := by
  obtain ⟨m, rest, hhand, hqueue, rfl⟩ := take_eq_some h
  have hm := hlabel m (by rw [hqueue]; exact List.mem_cons_self)
  induction path with
  | nil => rfl
  | cons j path ih =>
      rw [trail, trail, ih]
      by_cases hj : j = i
      · subst hj
        simp only [Function.update_self, hm, hhand, hqueue]
        cases hl : label j m <;> simp [hl]
      · simp only [Function.update_of_ne hj]

/-- The task where the path ends takes the oldest label off the trail. -/
theorem trail_take_last (path : List ι) (hpath : (path ++ [i]).Nodup)
    (hlabel : ∀ m, (net.received i m).bind (label (net.next i)) = none)
    (h : self.take net i = some next) :
    ∃ m, self.queue i = m :: next.queue i ∧
      self.trail net label (path ++ [i])
        = (label i m).toList ++ next.trail net label (path ++ [i]) := by
  obtain ⟨m, rest, hhand, hqueue, rfl⟩ := take_eq_some h
  have hi : ∀ j ∈ path, j ≠ i := by
    rintro j hj rfl
    exact List.disjoint_of_nodup_append hpath hj List.mem_cons_self
  have hrest : trail net label ⟨Function.update self.queue i rest,
      Function.update self.hand i (net.received i m)⟩ path = self.trail net label path :=
    trail_congr path (fun j hj => Function.update_of_ne (hi j hj) _ _)
      (fun j hj => Function.update_of_ne (hi j hj) _ _)
  refine ⟨m, by simp only [hqueue, Function.update_self], ?_⟩
  rw [trail_append, trail_append, hrest]
  simp only [trail, Function.update_self, hlabel, hhand, hqueue]
  cases hl : label i m <;> simp [hl]

/-- Nothing moves on when a message gets from a hand into the queue it is
for. -/
theorem trail_put (path path' : List ι) (hpath : (path ++ i :: net.next i :: path').Nodup)
    (h : self.put net i = some next) :
    next.trail net label (path ++ i :: net.next i :: path')
      = self.trail net label (path ++ i :: net.next i :: path') := by
  obtain ⟨m, hhand, -, rfl⟩ := put_eq_some h
  obtain ⟨-, hpair, hdisj⟩ := List.nodup_append.mp hpath
  obtain ⟨hi, hnext⟩ := List.nodup_cons.mp hpair
  rw [List.nodup_cons] at hnext
  -- no queue of the path is met twice, so the message leaves one place and enters the
  -- next, and every other place is as it was
  have hne : net.next i ≠ i := by
    intro heq
    rw [heq] at hi
    exact hi List.mem_cons_self
  have hother : ∀ j, (j ∈ path ∨ j ∈ path') → j ≠ i ∧ j ≠ net.next i := by
    rintro j (hj | hj)
    · exact ⟨hdisj j hj i List.mem_cons_self,
        hdisj j hj _ (List.mem_cons_of_mem i List.mem_cons_self)⟩
    · constructor
      · rintro rfl
        exact hi (List.mem_cons_of_mem _ hj)
      · rintro rfl
        exact hnext.1 hj
  have hrest : ∀ p : List ι, (∀ j ∈ p, j ∈ path ∨ j ∈ path') →
      trail net label ⟨Function.update self.queue (net.next i) (self.queue (net.next i) ++ [m]),
        Function.update self.hand i none⟩ p = self.trail net label p := by
    intro p hp
    exact trail_congr p (fun j hj => Function.update_of_ne (hother j (hp j hj)).2 _ _)
      (fun j hj => Function.update_of_ne (hother j (hp j hj)).1 _ _)
  rw [trail_append, trail_append, hrest path (fun j hj => .inl hj)]
  simp only [trail, hrest path' (fun j hj => .inr hj), Function.update_self,
    Function.update_of_ne hne, Function.update_of_ne hne.symm, hhand, List.filterMap_append]
  cases hl : label (net.next i) m <;> simp [hl]

/-- What has no label in the queue it is put into leaves no trace. -/
theorem trail_put_none (path : List ι)
    (hlabel : ∀ m, self.hand i = some m → label (net.next i) m = none)
    (h : self.put net i = some next) :
    next.trail net label path = self.trail net label path := by
  obtain ⟨m, hhand, -, rfl⟩ := put_eq_some h
  have hm := hlabel m hhand
  -- along the path: neither the hand nor the queue says anything of this message
  induction path with
  | nil => rfl
  | cons j path ih =>
      rw [trail, trail, ih]
      congr 1
      · congr 1
        by_cases hj : j = i
        · subst hj
          simp only [Function.update_self, hhand, Option.bind_some, hm, Option.bind_none]
        · simp only [Function.update_of_ne hj]
      · by_cases hj : j = net.next i
        · subst hj
          simp only [Function.update_self, filterMap_concat, hm,
            Option.toList_none, List.append_nil]
        · simp only [Function.update_of_ne hj]

end Trail

end Queues

/-! ## When a ring stands still

A task waits for the next queue to have room, and in a ring that queue's task waits in
turn. Following `next` around, one full queue makes all of them full. -/

/-- As many messages as the queues and the hands can hold. -/
def Plumbing.room {ι : Type u} {M : Type v} [Fintype ι] (net : Plumbing ι M) : Nat :=
  ∑ i, (net.capacity i : Nat) + ∑ _i : ι, 1

/-- From every queue `next` leads to every queue. -/
def Plumbing.Ring {ι : Type u} {M : Type v} (net : Plumbing ι M) : Prop :=
  ∀ i j, ∃ k, net.next^[k + 1] i = j

namespace Queues

variable {ι : Type u} {M : Type v} {net : Plumbing ι M} {self : Queues ι M}

/-- Every queue is full and every task has a message in hand. -/
def Full (net : Plumbing ι M) (self : Queues ι M) : Prop :=
  ∀ i, (self.queue i).length = net.capacity i ∧ self.hand i ≠ none

/-- A full queue is not empty, since every capacity is positive. -/
theorem queue_ne_nil (i : ι) (h : net.capacity i ≤ (self.queue i).length) :
    self.queue i ≠ [] := by
  have hpos := (net.capacity i).pos
  rw [← List.length_pos_iff]
  omega

/-- A message keeps its task waiting on a full queue, and so the task after
it. -/
theorem full_after [DecidableEq ι] {i : ι} (hblocked : self.Blocked net i)
    (hi : self.queue i ≠ [] ∨ self.hand i ≠ none) :
    self.hand i ≠ none ∧ net.capacity (net.next i) ≤ (self.queue (net.next i)).length := by
  rcases blocked_iff.mp hblocked with ⟨hnone, hempty⟩ | hwait
  · rcases hi with hi | hi
    · exact absurd hempty hi
    · exact absurd hnone hi
  · exact hwait

variable [Fintype ι]

/-- No more messages than there is room for. -/
theorem load_le_room (hb : self.Bounded net) : self.load ≤ net.room := by
  have hle := weight_le (fun _ => 1) (fun _ => 1) hb
  simp only [Nat.one_mul] at hle
  exact hle

/-- The load reaches the room when nothing is left free. -/
theorem load_eq_room_iff (hb : self.Bounded net) : self.load = net.room ↔ self.Full net := by
  have hhand : ∀ i, 1 * (self.hand i).toList.length ≤ 1 := by
    intro i
    cases self.hand i <;> simp
  have hqueue : ∀ i, 1 * (self.queue i).length ≤ net.capacity i := by
    intro i
    rw [Nat.one_mul]
    exact hb i
  -- a sum of numbers, each at most its bound, reaches the sum of the bounds only if
  -- each does
  have hsums := Finset.sum_le_sum (fun i (_ : i ∈ Finset.univ) => hqueue i)
  have hsumh := Finset.sum_le_sum (fun i (_ : i ∈ Finset.univ) => hhand i)
  have hsplit : self.load = net.room ↔
      ∑ i, 1 * (self.queue i).length = ∑ i, (net.capacity i : Nat) ∧
        ∑ i, 1 * (self.hand i).toList.length = ∑ _i : ι, 1 := by
    unfold load weight Plumbing.room
    dsimp only
    omega
  rw [hsplit, Finset.sum_eq_sum_iff_of_le (fun i _ => hqueue i),
    Finset.sum_eq_sum_iff_of_le (fun i _ => hhand i)]
  constructor
  · rintro ⟨hq, hh⟩ i
    refine ⟨by simpa using hq i (Finset.mem_univ i), ?_⟩
    intro hnone
    have hone := hh i (Finset.mem_univ i)
    simp [hnone] at hone
  · intro hfull
    constructor
    · intro i _
      simpa using (hfull i).1
    · intro i _
      obtain ⟨m, hm⟩ := Option.ne_none_iff_exists'.mp (hfull i).2
      simp [hm]

/-- **When a ring stands still.** Every task of a ring with messages in it is
blocked exactly when it holds as many as it can. -/
theorem stuck_iff_full [DecidableEq ι] (hring : net.Ring) (hb : self.Bounded net) :
    (∀ i, self.Blocked net i) ∧ 0 < self.load ↔ Nonempty ι ∧ self.load = net.room := by
  constructor
  · rintro ⟨hblocked, hload⟩
    -- some place is occupied, and from there the congestion goes round
    have hsome : ∃ i, self.queue i ≠ [] ∨ self.hand i ≠ none := by
      by_contra hnone
      simp only [not_exists, not_or, not_not] at hnone
      have hzero : self.load = 0 := by
        unfold load weight
        simp [fun i => (hnone i).1, fun i => (hnone i).2]
      omega
    obtain ⟨i, hi⟩ := hsome
    have hiter : ∀ k,
        net.capacity (net.next^[k + 1] i) ≤ (self.queue (net.next^[k + 1] i)).length := by
      intro k
      induction k with
      | zero => exact (full_after (hblocked i) hi).2
      | succ k ih =>
          rw [Function.iterate_succ_apply']
          exact (full_after (hblocked _) (.inl (queue_ne_nil _ ih))).2
    refine ⟨⟨i⟩, (load_eq_room_iff hb).mpr ?_⟩
    intro j
    obtain ⟨k, rfl⟩ := hring i j
    exact ⟨Nat.le_antisymm (hb _) (hiter k),
      (full_after (hblocked _) (.inl (queue_ne_nil _ (hiter k)))).1⟩
  · rintro ⟨⟨i⟩, hload⟩
    have hfull := (load_eq_room_iff hb).mp hload
    constructor
    · intro j
      exact blocked_iff.mpr (.inr ⟨(hfull j).2, (hfull _).1.ge⟩)
    · have hone : 1 ≤ ∑ _j : ι, 1 :=
        Finset.single_le_sum (fun _ _ => Nat.zero_le 1) (Finset.mem_univ i)
      rw [hload, Plumbing.room]
      omega

end Queues

end InputSync
