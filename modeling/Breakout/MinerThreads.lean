/-
# The threads of the KAWPoW miner

`StartKawpowMining` waits for the threads it made before, resets the count and makes new ones.  A
thread counts itself when it begins, and sets the active flag; it uncounts itself in the clean-up at its
end, and clears the flag if it was the last.  `StopKawpowMining` clears the flag.

A thread that reaches the maximum height returns in front of the clean-up.  A thread that begins after a
stop sets the flag again; so does a start that was waiting when the stop came.  `minerThreads_iff` says
that the count and the flag are right in every state of a run exactly when the run has no such step.

A call of `StartKawpowMining` is several steps, for others run in between; there is one call at a time.
-/
import Breakout.Lib.History

namespace Breakout

open Lib

/-! ## 1. States and steps -/

/-- A thread of the group: made, past its first step, or at its end. -/
inductive MinerThread where
  | created
  | running
  | returned
deriving DecidableEq

/-- Where a call of `StartKawpowMining` is: it waits for the threads of the old group, is about to reset
the count, or makes threads; so many are to be made. -/
inductive Starter where
  | idle
  | joining (nThreads : Nat)
  | resetting (nThreads : Nat)
  | creating (nThreads : Nat)
deriving DecidableEq

/-- Why `MineWithKawpow` leaves its loop. -/
inductive MinerExit where
  | flagCleared
  | shutdown
  | interrupted
  | exception
  | maxHeight
deriving DecidableEq

/-- The miner.  `stopped` holds since a call of `StopKawpowMining` that no call of `StartKawpowMining`
has followed. -/
structure Miner where
  fKawpowMiningActive : Bool
  nKawpowThreadCount : Int
  kawpowMinerThreads : Option (List MinerThread)
  starter : Starter
  stopped : Bool

/-- A step of one of the threads of the program. -/
inductive MinerStep where
  /-- `StartKawpowMining` is called, on a machine with so many cores. -/
  | start (fGenerate : Bool) (nThreads : Int) (hasWallet : Bool) (numCores : Nat)
  /-- `join_all` returns, and the group is deleted. -/
  | join
  /-- "Reset mining statistics" -/
  | reset
  /-- `create_thread` -/
  | create
  /-- `StopKawpowMining` is called. -/
  | stop
  /-- "Set mining active flag" -/
  | begin (i : Nat)
  /-- "Cleanup on exit", if the thread gets there. -/
  | exit (i : Nat) (why : MinerExit)

namespace Miner

/-- The threads of the group. -/
def threads (s : Miner) : List MinerThread := s.kawpowMinerThreads.getD []

/-- How many of them have started and not returned. -/
def running (s : Miner) : Nat := s.threads.count .running

/-- How many threads a call is to make. -/
def toCreate (fGenerate : Bool) (nThreads : Int) (hasWallet : Bool) (numCores : Nat) : Nat :=
  if fGenerate = false ∨ hasWallet = false then 0
  else if nThreads < 0 then numCores
  else nThreads.toNat

/-- What a call goes on to when there are no threads left. -/
def restart (n : Nat) : Starter := if n = 0 then .idle else .resetting n

/-- One step.  A step that cannot be taken leaves everything as it is. -/
def step (s : Miner) : MinerStep → Miner
  | .start fGenerate nThreads hasWallet numCores =>
    let n := toCreate fGenerate nThreads hasWallet numCores
    match s.starter, s.kawpowMinerThreads with
    | .idle, some _ => { s with fKawpowMiningActive := false, starter := .joining n, stopped := false }
    | .idle, none => { s with starter := restart n, stopped := false }
    | _, _ => s
  | .join =>
    match s.starter with
    | .joining n =>
      if ∀ t ∈ s.threads, t = .returned then
        { s with kawpowMinerThreads := none, starter := restart n }
      else s
    | _ => s
  | .reset =>
    match s.starter with
    | .resetting n =>
      { s with
        kawpowMinerThreads := some []
        nKawpowThreadCount := 0
        fKawpowMiningActive := true
        starter := .creating n }
    | _ => s
  | .create =>
    match s.starter with
    | .creating (n + 1) =>
      { s with
        kawpowMinerThreads := some (s.threads ++ [.created])
        starter := if n = 0 then .idle else .creating n }
    | _ => s
  | .stop => { s with fKawpowMiningActive := false, stopped := true }
  | .begin i =>
    if s.threads[i]? = some .created then
      { s with
        kawpowMinerThreads := some (s.threads.set i .running)
        fKawpowMiningActive := true
        nKawpowThreadCount := s.nKawpowThreadCount + 1 }
    else s
  | .exit i why =>
    if s.threads[i]? = some .running then
      let s := { s with kawpowMinerThreads := some (s.threads.set i .returned) }
      if why = .maxHeight then s
      else
        { s with
          nKawpowThreadCount := s.nKawpowThreadCount - 1
          fKawpowMiningActive :=
            if s.nKawpowThreadCount - 1 = 0 then false else s.fKawpowMiningActive }
    else s

/-- Before the first call. -/
def initial : Miner := ⟨false, 0, none, .idle, false⟩

/-- **The count and the flag are right.** -/
structure InStep (s : Miner) : Prop where
  count : s.nKawpowThreadCount = s.running
  flag : s.stopped = true → s.fKawpowMiningActive = false

/-- **No step goes wrong**: no running thread leaves at the maximum height, and after a stop no thread
begins and no start goes on. -/
def Orderly (s : Miner) : MinerStep → Prop
  | .exit i why => s.threads[i]? = some .running → why ≠ .maxHeight
  | .begin i => s.threads[i]? = some .created → s.stopped = false
  | .reset => ∀ n, s.starter = .resetting n → s.stopped = false
  | _ => True

/-! ## 2. One step -/

variable {s : Miner}

theorem running_some (ts : List MinerThread) (f : Bool) (c : Int) (p : Starter) (b : Bool) :
    (Miner.mk f c (some ts) p b).running = ts.count .running := rfl

/-- A thread that changes: what that does to the number of running threads. -/
theorem count_set {ts : List MinerThread} {i : Nat} {t : MinerThread} (hi : ts[i]? = some t)
    (t' : MinerThread) :
    (ts.set i t').count .running + (if t = .running then 1 else 0) =
      ts.count .running + (if t' = .running then 1 else 0) := by
  obtain ⟨hlt, rfl⟩ := List.getElem?_eq_some_iff.mp hi
  rw [List.count_set hlt]
  by_cases ht : ts[i] = .running
  · have hpos : 0 < ts.count .running := List.count_pos_iff.mpr (ht ▸ List.getElem_mem hlt)
    simp [ht]
    omega
  · simp [ht]

theorem InStep.start (h : s.InStep) (fGenerate : Bool) (nThreads : Int) (hasWallet : Bool)
    (numCores : Nat) : (s.step (.start fGenerate nThreads hasWallet numCores)).InStep := by
  unfold step
  dsimp only
  split
  · exact ⟨h.count, nofun⟩
  · exact ⟨h.count, nofun⟩
  · exact h

/-- Threads that have returned are forgotten. -/
theorem InStep.join (h : s.InStep) : (s.step .join).InStep := by
  unfold step
  dsimp only
  split
  · split
    · next hall =>
      have hnone : s.running = 0 := by
        refine List.count_eq_zero.mpr fun hmem => ?_
        cases hall _ hmem
      refine ⟨?_, h.flag⟩
      rw [h.count, hnone]
      rfl
    · exact h
  · exact h

theorem InStep.create (h : s.InStep) : (s.step .create).InStep := by
  unfold step
  dsimp only
  split
  · refine ⟨?_, h.flag⟩
    rw [running_some, List.count_append]
    exact h.count
  · exact h

/-- **When a thread begins in step**: the flag is set. -/
theorem InStep.begin_iff (h : s.InStep) (i : Nat) :
    (s.step (.begin i)).InStep ↔ s.Orderly (.begin i) := by
  unfold step Orderly
  dsimp only
  split
  · next hi =>
    have hcount := count_set hi .running
    rw [if_neg (by decide), if_pos rfl, Nat.add_zero] at hcount
    constructor
    · intro h' _
      by_contra hstopped
      exact absurd (h'.flag (by simpa using hstopped)) (by simp)
    · intro hgoing
      refine ⟨?_, fun hstopped => ?_⟩
      · rw [running_some, hcount, h.count]
        rfl
      · dsimp only at hstopped
        rw [hgoing hi] at hstopped
        cases hstopped
  · next hi => exact iff_of_true h fun hi' => absurd hi' hi

/-- **When a thread leaves in step**: it goes through the clean-up. -/
theorem InStep.exit_iff (h : s.InStep) (i : Nat) (why : MinerExit) :
    (s.step (.exit i why)).InStep ↔ s.Orderly (.exit i why) := by
  unfold step Orderly
  dsimp only
  split
  · next hi =>
    have hcount := count_set hi .returned
    rw [if_pos rfl, if_neg (by decide)] at hcount
    have hrunning : s.nKawpowThreadCount = ((s.threads.set i .returned).count .running : Nat) + 1 := by
      rw [h.count, running]
      omega
    split
    · next hwhy =>
      refine iff_of_false (fun h' => ?_) fun hgood => hgood hi hwhy
      have hwrong := h'.count
      rw [running_some] at hwrong
      dsimp only at hwrong
      omega
    · next hwhy =>
      refine iff_of_true ⟨?_, fun hstopped => ?_⟩ fun _ => hwhy
      · rw [running_some]
        dsimp only
        omega
      · dsimp only
        rw [h.flag hstopped]
        exact ite_self _
  · next hi => exact iff_of_true h fun hi' => absurd hi' hi

/-- **When a start goes on in step.** -/
theorem InStep.reset_iff (h : s.InStep) : (s.step .reset).InStep ↔ s.Orderly .reset := by
  unfold step Orderly
  dsimp only
  split
  · next n hn =>
    constructor
    · intro h' _ _
      by_contra hstopped
      exact absurd (h'.flag (by simpa using hstopped)) (by simp)
    · intro hgoing
      refine ⟨rfl, fun hstopped => ?_⟩
      dsimp only at hstopped
      rw [hgoing n hn] at hstopped
      cases hstopped
  · next hn => exact iff_of_true h fun n hn' => absurd hn' (hn n)

theorem InStep.step_iff (h : s.InStep) (op : MinerStep) : (s.step op).InStep ↔ s.Orderly op := by
  cases op with
  | start fGenerate nThreads hasWallet numCores => exact iff_of_true (h.start ..) trivial
  | join => exact iff_of_true h.join trivial
  | reset => exact h.reset_iff
  | create => exact iff_of_true h.create trivial
  | stop => exact iff_of_true ⟨h.count, fun _ => rfl⟩ trivial
  | begin i => exact h.begin_iff i
  | exit i why => exact h.exit_iff i why

/-! ## 3. Runs -/

/-- The miner after these steps. -/
def run (ops : List MinerStep) : Miner := ops.foldl step initial

/-- **When the miner's count and flag are right**: in every interleaving, the count is the number of
threads that have started and not returned and the flag stays cleared after a stop, in every state,
exactly when every step is orderly. -/
theorem minerThreads_iff (ops : List MinerStep) :
    (∀ ops', ops' <+: ops → (run ops').InStep) ↔
      ∀ ops' op, ops' ++ [op] <+: ops → (run ops').Orderly op :=
  everywhere_iff (J := fun _ => True) trivial ⟨rfl, nofun⟩ (fun _ _ _ _ => trivial)
    (fun _ op _ h => h.step_iff op) ops

/-- One thread is made. -/
def oneThread : List MinerStep := [.start true 1 true 4, .reset, .create]

/-- **Miscounted, and not stopped**: a thread that leaves at the maximum height is counted for ever; and
a thread that begins after a stop sets the flag again. -/
theorem miscounted :
    ((run (oneThread ++ [.begin 0, .exit 0 .maxHeight])).nKawpowThreadCount = 1 ∧
      (run (oneThread ++ [.begin 0, .exit 0 .maxHeight])).running = 0) ∧
      ((run (oneThread ++ [.stop, .begin 0])).stopped = true ∧
        (run (oneThread ++ [.stop, .begin 0])).fKawpowMiningActive = true) := by
  decide

end Miner

end Breakout
