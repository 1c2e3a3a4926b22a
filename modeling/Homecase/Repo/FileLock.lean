import Mathlib.Data.List.Basic

namespace Homecase

/-! # Lock files

`FileSystemRepository.Lock` locks a blob through `flock`, on the file `<blob>.lock`: it opens
the path, creating the file if there is none, and calls `flock` on the descriptor. The release
function it returns removes the path and then closes the file; so does the failure path of
`flock`. A `flock` lock belongs to the open file, and so to the inode the path named when the
task opened it, not to the path.

The tasks here all lock one id, so one lock path. A task's `LockPhase` says where it is in
`flock` and in its release function; `LockState.act` runs one step of one task. The kernel keeps
its promise on every inode (`LockState.reachable_exclusive`): no two tasks ever hold `flock`
locks on one inode unless both are shared. But a task can be blocked on the inode of a path
that its holder then removes, and a task that opens the path afterwards creates a new inode:
both are granted their exclusive locks, and both hold them at once (`lock_after_unlink`).
-/

/-- Where a task is in `flock` and in the release function it returned. -/
inductive LockPhase where
  | idle
  /-- `os.OpenFile(lockfile, os.O_CREATE|os.O_RDWR, ...)` has returned a descriptor of `inode`;
  `syscall.Flock` is next. -/
  | opened (inode : Nat)
  /-- `Lock` has returned: the task holds the lock until it calls the release function. -/
  | holding (inode : Nat)
  /-- The release function has removed the path; it closes the file next, if it is open. -/
  | releasing (inode : Option Nat)
  /-- The release function has returned; it may be called again. -/
  | released
  /-- `syscall.Flock` has failed and the path has been removed; `file.Close()` is next. -/
  | failing (inode : Nat)
  /-- `Lock` has returned its error. -/
  | failed
  deriving DecidableEq, Repr

namespace LockPhase

/-- The inode a task's open descriptor holds a `flock` lock on. -/
def flockOn : LockPhase → Option Nat
  | .holding inode => some inode
  | .releasing inode => inode
  | _ => none

/-- Its `Lock` has returned and it has not called the release function. -/
def holds : LockPhase → Bool
  | .holding _ => true
  | _ => false

end LockPhase

/-- A task locking the id, shared or exclusive. -/
structure Locker where
  exclusive : Bool
  phase : LockPhase
  deriving DecidableEq, Repr

/-- The lock path and the tasks: the inode the path names, if any, and the next inode a create
makes. -/
structure LockState where
  link : Option Nat
  fresh : Nat
  lockers : List Locker
  deriving DecidableEq, Repr

/-- What a task does next: its next step, the failure of its `flock`, or a call of the release
function `Lock` returned. -/
inductive LockAction where
  | step (task : Nat)
  | fail (task : Nat)
  | release (task : Nat)
  deriving DecidableEq, Repr

def LockAction.task : LockAction → Nat
  | .step task | .fail task | .release task => task

/-- What an action does to the task that takes it, with the lock path naming `link` and `fresh`
the next inode: its new phase, the path and the next inode after it; `none` when the task
cannot take the action. `granted inode` says whether its `flock` on `inode` returns now. -/
def transition (link : Option Nat) (fresh : Nat) (granted : Nat → Bool) :
    LockAction → LockPhase → Option (LockPhase × Option Nat × Nat)
  | .step _, .idle =>
    match link with
    | some inode => some (.opened inode, link, fresh)
    | none => some (.opened fresh, some fresh, fresh + 1)
  | .step _, .opened inode => if granted inode then some (.holding inode, link, fresh) else none
  | .step _, .releasing _ => some (.released, link, fresh)
  | .step _, .failing _ => some (.failed, link, fresh)
  | .fail _, .opened inode => some (.failing inode, none, fresh)
  | .release _, .holding inode => some (.releasing (some inode), none, fresh)
  | .release _, .released => some (.releasing none, none, fresh)
  | _, _ => none

namespace LockState

/-- No task but `task` holds a `flock` lock on `inode` that excludes one in mode `exclusive`. -/
def grantable (s : LockState) (task inode : Nat) (exclusive : Bool) : Bool :=
  s.lockers.enum.all fun (other, locker) =>
    other = task || locker.phase.flockOn ≠ some inode || !(exclusive || locker.exclusive)

def act (s : LockState) (action : LockAction) : Option LockState :=
  match s.lockers[action.task]? with
  | none => none
  | some locker =>
    (transition s.link s.fresh (fun inode => s.grantable action.task inode locker.exclusive)
      action locker.phase).map fun (phase, link, fresh) =>
        ⟨link, fresh, s.lockers.set action.task { locker with phase := phase }⟩

def run (s : LockState) : List LockAction → Option LockState
  | [] => some s
  | action :: schedule => (s.act action).bind (·.run schedule)

def start (modes : List Bool) : LockState :=
  ⟨none, 0, modes.map fun exclusive => ⟨exclusive, .idle⟩⟩

/-- Two tasks hold `flock` locks on one inode only when both are shared. -/
def Exclusive (s : LockState) : Prop :=
  ∀ (t u inode : Nat) (lt lu : Locker), t ≠ u → s.lockers[t]? = some lt → s.lockers[u]? = some lu →
    lt.phase.flockOn = some inode → lu.phase.flockOn = some inode →
      lt.exclusive = false ∧ lu.exclusive = false

end LockState

/-- An action gives a task a `flock` lock it did not hold only when its `flock` is granted. -/
theorem transition_flockOn {link link' : Option Nat} {fresh fresh' : Nat} {granted : Nat → Bool}
    {action : LockAction} {phase phase' : LockPhase}
    (moved : transition link fresh granted action phase = some (phase', link', fresh')) :
    phase'.flockOn = none ∨ phase'.flockOn = phase.flockOn ∨
      ∃ inode, phase'.flockOn = some inode ∧ granted inode = true := by
  cases action <;> cases phase <;> simp only [transition, reduceCtorEq] at moved
  case step.idle => split at moved <;> cases moved <;> exact .inl rfl
  case step.opened inode =>
    split at moved
    · cases moved
      exact .inr (.inr ⟨inode, rfl, ‹_›⟩)
    · cases moved
  all_goals cases moved; simp [LockPhase.flockOn]

theorem getElem?_set_eq_some {α : Type} {l : List α} {i j : Nat} {a b : α}
    (found : (l.set i a)[j]? = some b) : (i = j ∧ b = a) ∨ (i ≠ j ∧ l[j]? = some b) := by
  rw [List.getElem?_set] at found
  split_ifs at found with same <;> simp_all

namespace LockState

variable {s s' : LockState} {action : LockAction}

theorem act_some (acted : s.act action = some s') : ∃ locker phase,
    s.lockers[action.task]? = some locker ∧
    transition s.link s.fresh (fun inode => s.grantable action.task inode locker.exclusive) action
      locker.phase = some (phase, s'.link, s'.fresh) ∧
    s'.lockers = s.lockers.set action.task { locker with phase := phase } := by
  unfold act at acted
  split at acted
  · cases acted
  · obtain ⟨⟨phase, link, fresh⟩, moved, rfl⟩ := Option.map_eq_some'.mp acted
    exact ⟨_, phase, ‹_›, moved, rfl⟩

/-- A `flock` lock an action leaves a task holding excludes no lock another task holds on the
same inode. -/
theorem Exclusive.act (exclusive : s.Exclusive) (acted : s.act action = some s') :
    s'.Exclusive := by
  obtain ⟨locker, phase, found, moved, lockers⟩ := act_some acted
  have moved' : ∀ u lu inode, u ≠ action.task → s.lockers[u]? = some lu →
      phase.flockOn = some inode → lu.phase.flockOn = some inode →
        locker.exclusive = false ∧ lu.exclusive = false := by
    intro u lu inode other foundU flock flockU
    rcases transition_flockOn moved with none | kept | ⟨granted, flock', allowed⟩
    · simp [none] at flock
    · exact exclusive _ _ inode _ _ (Ne.symm other) found foundU (kept ▸ flock) flockU
    · obtain rfl : granted = inode := Option.some.inj (flock'.symm.trans flock)
      have := List.all_eq_true.mp allowed (u, lu) (List.mem_enum_iff_getElem?.mpr foundU)
      simpa [other, flockU] using this
  intro t u inode lt lu ne foundT foundU flockT flockU
  rw [lockers] at foundT foundU
  rcases getElem?_set_eq_some foundT with ⟨rfl, rfl⟩ | ⟨_, oldT⟩ <;>
    rcases getElem?_set_eq_some foundU with ⟨rfl, rfl⟩ | ⟨_, oldU⟩
  · exact absurd rfl ne
  · exact moved' u lu inode (Ne.symm ‹_›) oldU flockT flockU
  · exact (moved' t lt inode (Ne.symm ‹_›) oldT flockU flockT).symm
  · exact exclusive t u inode lt lu ne oldT oldU flockT flockU

theorem Exclusive.run {schedule : List LockAction} (exclusive : s.Exclusive)
    (ran : s.run schedule = some s') : s'.Exclusive := by
  induction schedule generalizing s with
  | nil =>
    cases ran
    exact exclusive
  | cons action schedule ih =>
    obtain ⟨mid, acted, rest⟩ := Option.bind_eq_some.mp ran
    exact ih (exclusive.act acted) rest

/-- Whatever the tasks do, under every schedule, two of them hold `flock` locks on one inode
only when both are shared. -/
theorem reachable_exclusive (modes : List Bool) {schedule : List LockAction}
    (ran : (start modes).run schedule = some s) : s.Exclusive := by
  refine Exclusive.run (fun t u inode lt lu _ foundT _ flockT _ => ?_) ran
  simp only [start, List.getElem?_map, Option.map_eq_some'] at foundT
  obtain ⟨_, _, rfl⟩ := foundT
  cases flockT

/-- Three tasks lock one id exclusively. The first holds the lock; the second opens the lock
file and blocks in `flock`; the first calls its release function, which removes the path and
closes the file, and the second's `flock` returns; the third opens the path, which names no file
now, creates a new one and locks it. The second and the third hold their exclusive locks at
once. -/
theorem lock_after_unlink :
    ((start [true, true, true]).run [.step 0, .step 0, .step 1, .release 0, .step 0, .step 1,
      .step 2, .step 2]).map (fun s => s.lockers.map (·.phase.holds)) =
      some [false, true, true] := by
  decide

end LockState

end Homecase
