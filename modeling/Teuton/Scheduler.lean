import Mathlib.Algebra.Order.Field.Rat
import Mathlib.Algebra.Order.Ring.NNRat
import Teuton.KeyedDict
import Teuton.Protocol

/-! Quota-aware scheduling. The quota book has an account for each hotkey that was ever
discovered, with the workers of that hotkey and the compute units reserved for it. A worker is
picked from the accounts that have quota left, the one with the highest priority first, and the
pick reserves quota until it is released. -/
namespace Scheduler

open PyJson Protocol

structure MinerIdentity where
  netuid : ℤ
  hotkeySs58 : String

structure MinerAccount where
  identity : MinerIdentity
  workers : KeyedDict WorkerIdentity.workerId := KeyedDict.empty
  inflightCu : ℚ≥0 := 0
  verifiedGoodCu : ℚ := 0
  trustMultiplier : ℚ := 1
  baseQuota : ℚ := 5
  owned : ∀ w ∈ workers.vals, w.hotkeySs58 = identity.hotkeySs58

namespace MinerAccount

def hotkey (a : MinerAccount) : String := a.identity.hotkeySs58

def fresh (identity : MinerIdentity) (baseQuota : ℚ) : MinerAccount :=
  { identity := identity, baseQuota := baseQuota, owned := by simp [KeyedDict.empty] }

def maxInflightCu (a : MinerAccount) : ℚ := a.baseQuota + a.verifiedGoodCu * (1 / 2)

def availableQuota (a : MinerAccount) : ℚ := max 0 (a.maxInflightCu - (a.inflightCu : ℚ))

def priority (a : MinerAccount) : ℚ :=
  a.trustMultiplier * (1 + a.workers.vals.length) / max 1 (a.inflightCu : ℚ)

/-- The assignment `account.workers[worker.worker_id] = worker`, on the worker's own account. -/
def addWorker (w : WorkerIdentity) (a : MinerAccount) : MinerAccount :=
  if h : w.hotkeySs58 = a.hotkey then
    { a with
      workers := a.workers.set w
      owned := by
        intro v hv
        rcases KeyedDict.mem_upsert hv with rfl | hv
        · exact h
        · exact a.owned v hv }
  else a

def addInflight (hotkey : String) (f : ℚ≥0 → ℚ≥0) (a : MinerAccount) : MinerAccount :=
  if a.hotkey = hotkey then { a with inflightCu := f a.inflightCu } else a

@[simp] theorem hotkey_addWorker (w : WorkerIdentity) (a : MinerAccount) :
    (a.addWorker w).hotkey = a.hotkey := by
  unfold addWorker
  split_ifs <;> rfl

@[simp] theorem hotkey_addInflight (hotkey : String) (f : ℚ≥0 → ℚ≥0) (a : MinerAccount) :
    (a.addInflight hotkey f).hotkey = a.hotkey := by
  unfold addInflight
  split_ifs <;> rfl

end MinerAccount

/-- Accounts by hotkey; `baseQuota` is what a new account starts with. -/
structure QuotaBook where
  accounts : KeyedDict MinerAccount.hotkey := KeyedDict.empty
  baseQuota : ℚ := 5

structure Candidate where
  priority : ℚ
  worker : WorkerIdentity
  account : String

def Candidate.before (c d : Candidate) : Bool :=
  d.priority < c.priority ∨ d.priority = c.priority ∧
    (c.worker.hotkeySs58 < d.worker.hotkeySs58 ∨ c.worker.hotkeySs58 = d.worker.hotkeySs58 ∧
      c.worker.workerId < d.worker.workerId)

def firstCandidate : List Candidate → Option Candidate
  | [] => none
  | c :: rest => some (rest.foldl (fun best d => if d.before best then d else best) c)

def worldSize (worker : WorkerIdentity) : Py ℤ :=
  (((field? "world_size" worker.capabilities).getD .null).orElse
    ((Json.int worker.deviceGroup.length).orElse
      (.int (if worker.gpuIndex.isSome then 1 else 0)))).toInt

def workerSatisfies (requirements : ResourceRequirements) (worker : WorkerIdentity) : Py Bool := do
  let size ← worldSize worker
  let grouped := worker.workerGroupId.any (· ≠ "")
  return !(size < requirements.minGpus ∨
    requirements.placement = "single_host" ∧ 1 < requirements.minGpus ∧ !grouped)

def candidatesOf (requirements : ResourceRequirements) (a : MinerAccount) :
    Py (List Candidate) := do
  let found ← a.workers.vals.mapM fun w => do
    return if ← workerSatisfies requirements w then some ⟨a.priority, w, a.hotkey⟩ else none
  return found.filterMap id

namespace QuotaBook

/-- The assignment `self.accounts.setdefault(..)` followed by the entry of the worker. -/
def register (q : QuotaBook) (w : WorkerIdentity) : QuotaBook :=
  let accounts := q.accounts.setDefault (.fresh ⟨0, w.hotkeySs58⟩ q.baseQuota)
  { q with accounts := accounts.mapVals (·.addWorker w) (MinerAccount.hotkey_addWorker w) }

def updateWorkers (q : QuotaBook) (identities : List MinerIdentity)
    (workers : List WorkerIdentity) : QuotaBook :=
  let named := q.accounts.setDefaults (identities.map (MinerAccount.fresh · q.baseQuota))
  workers.foldl register { q with accounts := named }

def changeInflight (q : QuotaBook) (hotkey : String) (f : ℚ≥0 → ℚ≥0) : QuotaBook :=
  let accounts := q.accounts.mapVals (·.addInflight hotkey f)
    (MinerAccount.hotkey_addInflight hotkey f)
  { q with accounts := accounts }

def eligible (hotkeyFilter : String → Bool) (estimatedCu : ℚ≥0) (a : MinerAccount) : Bool :=
  hotkeyFilter a.hotkey ∧ (estimatedCu : ℚ) ≤ a.availableQuota ∧ !a.workers.vals.isEmpty

def pickWorker (q : QuotaBook) (requirements : ResourceRequirements := {})
    (hotkeyFilter : String → Bool := fun _ => true) (estimatedCu : ℚ≥0 := 1) :
    Py (WorkerIdentity × QuotaBook) := do
  let candidates ← (q.accounts.vals.filter (eligible hotkeyFilter estimatedCu)).mapM
    (candidatesOf requirements)
  match firstCandidate candidates.flatten with
  | none => .error (.runtimeError "no miner workers have quota for assignment")
  | some c => return (c.worker, q.changeInflight c.account (· + estimatedCu))

/-- The difference of non-negative numbers stops at zero, as in `max(0.0, ..)`. -/
def release (q : QuotaBook) (hotkey : String) (estimatedCu : ℚ≥0 := 1) : QuotaBook :=
  q.changeInflight hotkey fun cu => cu - estimatedCu

/-- What is reserved for a hotkey; a hotkey without an account has nothing reserved. -/
def inflight (q : QuotaBook) (hotkey : String) : ℚ≥0 :=
  ((q.accounts.get? hotkey).map MinerAccount.inflightCu).getD 0

end QuotaBook

namespace QuotaBook

@[simp] theorem keys_changeInflight (q : QuotaBook) (hotkey : String) (f : ℚ≥0 → ℚ≥0) :
    (q.changeInflight hotkey f).accounts.keys = q.accounts.keys := by
  simp [changeInflight, KeyedDict.keys, KeyedDict.mapVals, Function.comp_def]

theorem inflight_changeInflight {q : QuotaBook} {hotkey : String}
    (h : hotkey ∈ q.accounts.keys) (f : ℚ≥0 → ℚ≥0) (k : String) :
    (q.changeInflight hotkey f).inflight k =
      if k = hotkey then f (q.inflight k) else q.inflight k := by
  rw [inflight, changeInflight, KeyedDict.get?_mapVals, inflight]
  cases hk : q.accounts.get? k with
  | none =>
    have hne : k ≠ hotkey := by
      rintro rfl
      obtain ⟨a, ha, rfl⟩ := List.mem_map.mp h
      rw [KeyedDict.get?_eq_some.mpr ⟨ha, rfl⟩] at hk
      cases hk
    rw [if_neg hne]
    rfl
  | some a =>
    obtain ⟨-, rfl⟩ := KeyedDict.get?_eq_some.mp hk
    by_cases hkey : a.hotkey = hotkey
    · simp [MinerAccount.addInflight, hkey]
    · simp [MinerAccount.addInflight, hkey]

end QuotaBook

theorem firstCandidate_mem {l : List Candidate} {c : Candidate} (h : firstCandidate l = some c) :
    c ∈ l := by
  cases l with
  | nil => cases h
  | cons d rest =>
    have hfold : ∀ (l : List Candidate) (best : Candidate),
        l.foldl (fun best d => if d.before best then d else best) best ∈ best :: l := by
      intro l
      induction l with
      | nil => simp
      | cons x l ih =>
        intro best
        rw [List.foldl_cons]
        rcases List.mem_cons.mp (ih (if x.before best then x else best)) with hx | hx
        · rw [hx]
          split_ifs <;> simp
        · exact List.mem_cons_of_mem _ (List.mem_cons_of_mem _ hx)
    cases h
    exact hfold rest d

theorem mem_candidatesOf {requirements : ResourceRequirements} {a : MinerAccount}
    {l : List Candidate} (h : candidatesOf requirements a = .ok l) {c : Candidate} (hc : c ∈ l) :
    c.account = a.hotkey ∧ c.worker ∈ a.workers.vals ∧ c.priority = a.priority ∧
      workerSatisfies requirements c.worker = .ok true := by
  obtain ⟨found, hfound, h⟩ := bind_eq_ok.mp h
  cases h
  obtain ⟨-, rfl⟩ := mapM_eq_ok.mp hfound
  obtain ⟨x, hx, hid⟩ := List.mem_filterMap.mp hc
  obtain ⟨w, hw, hx⟩ := List.mem_filterMap.mp hx
  obtain ⟨ok, hok, hx⟩ := bind_eq_ok.mp (toOption_eq_some.mp hx)
  cases hx
  cases ok with
  | false => cases hid
  | true =>
    cases hid
    exact ⟨rfl, hw, rfl, hok⟩

theorem pickWorker_eq_ok {q q' : QuotaBook} {requirements : ResourceRequirements}
    {hotkeyFilter : String → Bool} {estimatedCu : ℚ≥0} {w : WorkerIdentity}
    (h : q.pickWorker requirements hotkeyFilter estimatedCu = .ok (w, q')) :
    ∃ a ∈ q.accounts.vals, QuotaBook.eligible hotkeyFilter estimatedCu a = true ∧
      w ∈ a.workers.vals ∧ w.hotkeySs58 = a.hotkey ∧
      workerSatisfies requirements w = .ok true ∧
      q' = q.changeInflight w.hotkeySs58 (· + estimatedCu) := by
  obtain ⟨candidates, hcandidates, h⟩ := bind_eq_ok.mp h
  split at h
  · cases h
  next c hc =>
  cases h
  obtain ⟨l, hl, hcl⟩ := List.mem_flatten.mp (firstCandidate_mem hc)
  obtain ⟨-, rfl⟩ := mapM_eq_ok.mp hcandidates
  obtain ⟨a, ha, hl⟩ := List.mem_filterMap.mp hl
  obtain ⟨haccount, heligible⟩ := List.mem_filter.mp ha
  obtain ⟨hhotkey, hw, -, hsatisfies⟩ := mem_candidatesOf (toOption_eq_some.mp hl) hcl
  have howned : c.worker.hotkeySs58 = a.hotkey := a.owned _ hw
  exact ⟨a, haccount, heligible, hw, howned, hsatisfies, by rw [howned, hhotkey]⟩

namespace QuotaBook

/-- The reservations of a book are those of an earlier one and a unit for each of these jobs. -/
structure Holds (before now : QuotaBook) (jobs : List JobManifestV3) : Prop where
  inflight : ∀ hotkey, now.inflight hotkey =
    before.inflight hotkey + (jobs.countP fun x => x.assignedHotkey = hotkey : ℕ)
  known : ∀ x ∈ jobs, x.assignedHotkey ∈ now.accounts.keys

theorem holds_nil (q : QuotaBook) : Holds q q [] := ⟨by simp, by simp⟩

variable {before now : QuotaBook} {jobs : List JobManifestV3}

theorem Holds.perm {jobs' : List JobManifestV3}
    (h : Holds before now jobs) (hperm : jobs.Perm jobs') : Holds before now jobs' := by
  refine ⟨fun hotkey => ?_, fun x hx => h.known x (hperm.mem_iff.mpr hx)⟩
  rw [h.inflight, hperm.countP_eq]

theorem Holds.reserve (h : Holds before now jobs) {x : JobManifestV3}
    (haccount : x.assignedHotkey ∈ now.accounts.keys) :
    Holds before (now.changeInflight x.assignedHotkey (· + 1)) (jobs ++ [x]) := by
  refine ⟨fun hotkey => ?_, fun y hy => ?_⟩
  · rw [inflight_changeInflight haccount, h.inflight, List.countP_append]
    by_cases hsame : hotkey = x.assignedHotkey
    · simp [hsame, add_assoc]
    · simp [hsame, Ne.symm hsame]
  · rw [keys_changeInflight]
    rcases List.mem_append.mp hy with hy | hy
    · exact h.known y hy
    · rw [List.mem_singleton.mp hy]
      exact haccount

theorem Holds.release {x : JobManifestV3}
    (h : Holds before now (x :: jobs)) : Holds before (now.release x.assignedHotkey) jobs := by
  have haccount : x.assignedHotkey ∈ now.accounts.keys := h.known x List.mem_cons_self
  refine ⟨fun hotkey => ?_, fun y hy => ?_⟩
  · rw [QuotaBook.release, inflight_changeInflight haccount, h.inflight, List.countP_cons]
    by_cases hsame : hotkey = x.assignedHotkey
    · simp [hsame, ← add_assoc]
    · simp [hsame, Ne.symm hsame]
  · rw [QuotaBook.release, keys_changeInflight]
    exact h.known y (List.mem_cons_of_mem x hy)

end QuotaBook

end Scheduler
