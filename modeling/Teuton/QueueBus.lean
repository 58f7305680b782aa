import Mathlib.Data.Int.Notation
import Mathlib.Data.List.Induction
import Mathlib.Logic.Function.Basic

/-! The bus that hands queue snapshots to the subscribers of the dashboard. No task is suspended
while it holds the bus's lock, so an uncontended lock and a put into a queue with room do not
suspend either: a publication, a subscription and a receipt are one step each. -/
namespace QueueBus

variable {ν : Type}

/-- The method `full` of `asyncio.Queue`; a size that is not positive means no bound. -/
def isFull (size : ℤ) (queue : List ν) : Bool := 0 < size ∧ size ≤ queue.length

/-- A full queue loses its oldest snapshot. If it were still full, the new one would be skipped. -/
def deliver (size : ℤ) (x : ν) (queue : List ν) : List ν :=
  if isFull size queue then
    if isFull size (queue.drop 1) then queue.drop 1 else queue.drop 1 ++ [x]
  else queue ++ [x]

/-- The history of a subscriber is what it has received, and how many snapshots of its key came
before the one it was given first. -/
structure Subscriber (ν : Type) where
  id : ℕ
  key : String × String
  queue : List ν
  received : List ν := []
  start : ℕ

def Subscriber.receive (u : Subscriber ν) : Subscriber ν :=
  match u.queue with
  | [] => u
  | x :: rest => { u with queue := rest, received := u.received ++ [x] }

structure Bus (ν : Type) where
  latest : String × String → Option ν := fun _ => none
  subscribers : List (Subscriber ν) := []
  log : List ν := []

inductive Event (ν : Type) where
  | publish (x : ν)
  | subscribe (id : ℕ) (key : String × String)
  | receive (id : ℕ)
  | close (id : ℕ)

variable (keyOf : ν → String × String) (size : ℤ)

def sent (b : Bus ν) (key : String × String) : List ν := b.log.filter (keyOf · = key)

def step (b : Bus ν) : Event ν → Bus ν
  | .publish x =>
    { latest := Function.update b.latest (keyOf x) (some x)
      log := b.log ++ [x]
      subscribers := b.subscribers.map fun u =>
        if u.key = keyOf x then { u with queue := deliver size x u.queue } else u }
  | .subscribe id key =>
    { b with subscribers := b.subscribers ++ [{
        id := id, key := key, queue := (b.latest key).toList
        start := (sent keyOf b key).length - 1 }] }
  | .receive id =>
    { b with subscribers := b.subscribers.map fun u => if u.id = id then u.receive else u }
  | .close id => { b with subscribers := b.subscribers.filter (·.id ≠ id) }

def run (events : List (Event ν)) : Bus ν := events.foldl (step keyOf size) {}

/-- What a subscriber has received and will receive, against all snapshots of its key. -/
structure Served (all : List ν) (u : Subscriber ν) : Prop where
  begun : u.start ≤ all.length
  ordered : (u.received ++ u.queue).Sublist (all.drop u.start)
  newest : (u.received ++ u.queue).getLast? = all.getLast?
  fits : 0 < size → (u.queue.length : ℤ) ≤ size

structure Invariant (b : Bus ν) : Prop where
  latest : ∀ key, b.latest key = (sent keyOf b key).getLast?
  served : ∀ u ∈ b.subscribers, Served size (sent keyOf b u.key) u

variable {keyOf size} {b : Bus ν} {all queue : List ν} {u : Subscriber ν} {x : ν}

theorem deliver_eq (x : ν) (h : 0 < size → (queue.length : ℤ) ≤ size) :
    ∃ n, deliver size x queue = queue.drop n ++ [x] ∧
      (0 < size → ((queue.drop n).length : ℤ) < size) := by
  by_cases hfull : 0 < size ∧ size ≤ queue.length
  · have hlength := h hfull.1
    have hroom : ((queue.drop 1).length : ℤ) < size := by
      rw [List.length_drop]
      omega
    refine ⟨1, ?_, fun _ => hroom⟩
    rw [deliver, isFull, isFull, if_pos (by simpa using hfull),
      if_neg (by simpa using fun _ => hroom)]
  · refine ⟨0, ?_, fun hpos => ?_⟩
    · rw [deliver, isFull, if_neg (by simpa using hfull), List.drop_zero]
    · rw [List.drop_zero]
      omega

theorem Served.deliver (h : Served size all u) (x : ν) :
    Served size (all ++ [x]) { u with queue := deliver size x u.queue } := by
  obtain ⟨n, hqueue, hroom⟩ := deliver_eq x h.fits
  rw [hqueue]
  have hkept : (u.received ++ u.queue.drop n).Sublist (all.drop u.start) :=
    ((List.drop_sublist ..).append_left _).trans h.ordered
  refine ⟨Nat.le_trans h.begun (by simp), ?_, ?_, fun hpos => ?_⟩
  · rw [List.drop_append_of_le_length h.begun, ← List.append_assoc]
    exact hkept.append (List.Sublist.refl _)
  · rw [← List.append_assoc]
    simp
  · have hlength := hroom hpos
    rw [List.length_append, List.length_singleton]
    omega

theorem Served.receive (h : Served size all u) : Served size all u.receive := by
  unfold Subscriber.receive
  cases hqueue : u.queue with
  | nil => exact h
  | cons x rest =>
    obtain ⟨hbegun, hordered, hnewest, hfits⟩ := h
    rw [hqueue] at hordered hnewest hfits
    refine ⟨hbegun, ?_, ?_, fun hpos => ?_⟩
    · simpa using hordered
    · simpa using hnewest
    · have hlength := hfits hpos
      rw [List.length_cons] at hlength
      push_cast at hlength
      exact (by omega : (rest.length : ℤ) ≤ size)

theorem served_seed (id : ℕ) (key : String × String) (all : List ν) :
    Served size all ⟨id, key, all.getLast?.toList, [], all.length - 1⟩ := by
  cases all using List.reverseRecOn with
  | nil => exact ⟨Nat.zero_le _, by simp, rfl, fun hpos => by simp; omega⟩
  | append_singleton before x => exact ⟨by simp, by simp, by simp, fun hpos => by simp; omega⟩

theorem Invariant.step (h : Invariant keyOf size b) (e : Event ν) :
    Invariant keyOf size (QueueBus.step keyOf size b e) := by
  cases e with
  | publish x =>
    have hsent : ∀ key, sent keyOf (QueueBus.step keyOf size b (.publish x)) key =
        sent keyOf b key ++ if keyOf x = key then [x] else [] := by
      intro key
      by_cases hkey : keyOf x = key <;> simp [sent, QueueBus.step, hkey]
    refine ⟨fun key => ?_, fun u hu => ?_⟩
    · rw [hsent]
      by_cases hkey : keyOf x = key
      · subst hkey
        simp [QueueBus.step]
      · simp [QueueBus.step, hkey, Function.update_of_ne (Ne.symm hkey), h.latest key]
    · obtain ⟨v, hv, rfl⟩ := List.mem_map.mp hu
      rw [hsent]
      by_cases hkey : v.key = keyOf x
      · simp only [hkey, if_true]
        exact hkey ▸ (h.served v hv).deliver x
      · simp only [hkey, if_false, Ne.symm hkey, List.append_nil]
        exact h.served v hv
  | subscribe id key =>
    refine ⟨h.latest, fun u hu => ?_⟩
    rcases List.mem_append.mp hu with hu | hu
    · exact h.served u hu
    · rw [List.mem_singleton.mp hu, h.latest key]
      exact served_seed id key (sent keyOf b key)
  | receive id =>
    refine ⟨h.latest, fun u hu => ?_⟩
    obtain ⟨v, hv, rfl⟩ := List.mem_map.mp hu
    by_cases hid : v.id = id
    · have hkey : v.receive.key = v.key := by
        unfold Subscriber.receive
        split <;> rfl
      simp only [hid, if_true, hkey]
      exact (h.served v hv).receive
    · simp only [hid, if_false]
      exact h.served v hv
  | close id => exact ⟨h.latest, fun u hu => h.served u (List.mem_filter.mp hu).1⟩

theorem invariant_run (keyOf : ν → String × String) (size : ℤ) (events : List (Event ν)) :
    Invariant keyOf size (run keyOf size events) := by
  have hinit : Invariant keyOf size ({} : Bus ν) := ⟨fun _ => rfl, fun u hu => by cases hu⟩
  unfold run
  induction events using List.reverseRecOn with
  | nil => exact hinit
  | append_singleton events e ih =>
    rw [List.foldl_append]
    exact ih.step e

/-- However publications, subscriptions and receipts interleave, a subscriber receives snapshots
of its key in order and each once, none older than the one that was the latest when it subscribed;
and when it has received all that is in its queue, it has received the latest one. -/
theorem subscribers_see_newest (keyOf : ν → String × String) (size : ℤ) (events : List (Event ν)) :
    ∀ u ∈ (run keyOf size events).subscribers,
      u.received.Sublist ((sent keyOf (run keyOf size events) u.key).drop u.start) ∧
      (u.queue = [] →
        u.received.getLast? = (sent keyOf (run keyOf size events) u.key).getLast?) ∧
      (0 < size → (u.queue.length : ℤ) ≤ size) := by
  intro u hu
  have h := (invariant_run keyOf size events).served u hu
  refine ⟨(List.sublist_append_left ..).trans h.ordered, fun hempty => ?_, h.fits⟩
  have hnewest := h.newest
  rwa [hempty, List.append_nil] at hnewest

def lateBus : Bus ℕ := run (fun _ => ("r", "train")) 1
  [.publish 1, .subscribe 0 ("r", "train"), .publish 2, .publish 3, .receive 0]

/-- A subscriber with room for one snapshot that reads late receives the last one only. -/
theorem late_subscriber_sees_last : ∃ u ∈ lateBus.subscribers, u.queue = [] ∧ u.received = [3] ∧
    u.received.getLast? = (sent (fun _ => ("r", "train")) lateBus u.key).getLast? := by
  have hmem : ⟨0, ("r", "train"), [], [3], 0⟩ ∈ lateBus.subscribers := List.mem_singleton.mpr rfl
  exact ⟨_, hmem, rfl, rfl, (subscribers_see_newest _ 1 _ _ hmem).2.1 rfl⟩

end QueueBus
