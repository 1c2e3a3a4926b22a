import Homecase.Repo.Program
import Mathlib.Logic.Relation

namespace Homecase

/-! # Service calls side by side

The server handles each request in a goroutine of its own, so the repository calls of
concurrent service calls interleave. A `Task` is one call in progress: the rest of its program,
the locks it holds and how far it has got through a `Store`. A `World` is the repositories and
the tasks; `World.step i` runs one step of task `i`, and a schedule, a list of task indices,
runs one step after another (`World.run`).

Locks are granted as the `blob.Repository` contract states: shared locks on an id coexist, and
an exclusive lock excludes every other lock on the same id of the same repository. A `Lock` of
a task waits while another task holds a lock that excludes it. Every other call is atomic
except `Store`: `storeBlob` opens the file, creating it if there is none (`os.OpenFile` with
`O_CREATE`), truncates it to the size of the body, then writes the body, and between these
steps other tasks see the file as it is. A file removed while a store has it open takes the
rest of that store with it: nothing reappears at its path.

A task alone in its world computes what `Prog.run` computes (`World.run_alone`).
-/

/-- A lock a task holds: the repository and the blob id it was taken on, and its mode. -/
structure HeldLock where
  repo : RepoName
  id : BlobID
  exclusive : Bool
  deriving DecidableEq, Repr

/-- A held lock keeps a request for `id` of `repo` in mode `exclusive` waiting: the same blob,
and one of the two locks exclusive. -/
def HeldLock.blocks (held : HeldLock) (repo : RepoName) (id : BlobID) (exclusive : Bool) : Bool :=
  decide (held.repo = repo) && decide (held.id = id) && (held.exclusive || exclusive)

inductive StorePhase where
  | idle
  /-- `os.OpenFile` has opened the file, creating it if there was none. -/
  | created
  /-- `file.Truncate` has set the file's size to the body's. -/
  | truncated
  deriving DecidableEq, Repr

/-- One service call in progress. -/
structure Task (α : Type) where
  prog : Prog α
  held : List HeldLock
  phase : StorePhase

/-- `file.Truncate(size)` on a file holding `old`: cut to `size` bytes, or extended with zero
bytes up to it. -/
def truncateTo (size : Nat) (old : Bytes) : Bytes :=
  old.take size ++ List.replicate (size - old.length) 0

namespace Repos

/-- `os.OpenFile(filename, os.O_RDWR|os.O_CREATE, ...)`: an empty file if there was none. -/
def create (repos : Repos) (repo : RepoName) (id : BlobID) : Repos :=
  match repos.get repo id with
  | some _ => repos
  | none => repos.set repo ((repos.get repo).insert id [])

/-- `file.Truncate(size)` on the open file, if it is still there. -/
def truncate (repos : Repos) (repo : RepoName) (id : BlobID) (size : Nat) : Repos :=
  match repos.get repo id with
  | some old => repos.set repo ((repos.get repo).insert id (truncateTo size old))
  | none => repos

/-- `blob.WriteTo(file)` on the open file, if it is still there. -/
def write (repos : Repos) (repo : RepoName) (blob : Blob) : Repos :=
  match repos.get repo blob.id with
  | some _ => repos.set repo ((repos.get repo).insert blob.id blob.body)
  | none => repos

@[simp] theorem set_set (repos : Repos) (repo : RepoName) (first second : BlobMap) :
    (repos.set repo first).set repo second = repos.set repo second := by
  cases repo <;> rfl

/-- The three steps of a `Store` with nothing between them store the blob. -/
theorem write_truncate_create (repos : Repos) (repo : RepoName) (blob : Blob) :
    ((repos.create repo blob.id).truncate repo blob.id blob.body.length).write repo blob =
      repos.set repo ((repos.get repo).insert blob.id blob.body) := by
  have overwrite : ∀ (blobs : BlobMap) (first second : Bytes),
      (blobs.insert blob.id first).insert blob.id second = blobs.insert blob.id second :=
    fun blobs _ _ => funext fun other => by by_cases other = blob.id <;> simp [*]
  cases found : repos.get repo blob.id <;> simp [create, truncate, write, found, overwrite]

end Repos

/-- The step of a task whose next call is `op`, where `free` says whether a lock may be granted:
the task after the step and the repositories, or `none` while its `Lock` waits. -/
def Task.advance (free : RepoName → BlobID → Bool → Bool) (held : List HeldLock)
    (phase : StorePhase) (repos : Repos) : (op : RepoOp) → (op.Response → Prog α) →
      Option (Task α × Repos)
  | .lock repo id exclusive, next =>
    if free repo id exclusive then
      some (⟨next (.ok ()), ⟨repo, id, exclusive⟩ :: held, .idle⟩, repos)
    else none
  | .release repo id exclusive, next =>
    some (⟨next (), held.erase ⟨repo, id, exclusive⟩, .idle⟩, repos)
  | .store repo blob, next =>
    match phase with
    | .idle => some (⟨.call (.store repo blob) next, held, .created⟩, repos.create repo blob.id)
    | .created =>
      some (⟨.call (.store repo blob) next, held, .truncated⟩,
        repos.truncate repo blob.id blob.body.length)
    | .truncated => some (⟨next (.ok ()), held, .idle⟩, repos.write repo blob)
  | op, next => some (⟨next (op.apply repos).1, held, .idle⟩, (op.apply repos).2)

structure World (α : Type) where
  repos : Repos
  tasks : List (Task α)

/-- The lock a task asks for next, if its next call is a `Lock`. -/
def Task.request (task : Task α) : Option (RepoName × BlobID × Bool) :=
  match task.prog with
  | .call (.lock repo id exclusive) _ => some (repo, id, exclusive)
  | _ => none

def Task.returned (task : Task α) : Option α :=
  match task.prog with
  | .pure result => some result
  | .call .. => none

namespace World

def start (repos : Repos) (progs : List (Prog α)) : World α :=
  ⟨repos, progs.map fun prog => ⟨prog, [], .idle⟩⟩

/-- No task but `i` holds a lock that keeps the request waiting. -/
def free (w : World α) (i : Nat) (repo : RepoName) (id : BlobID) (exclusive : Bool) : Bool :=
  w.tasks.enum.all fun (j, task) => j = i || task.held.all fun held => !held.blocks repo id exclusive

/-- One step of task `i`; `none` when it has finished or waits for a lock. -/
def step (w : World α) (i : Nat) : Option (World α) :=
  match w.tasks[i]? with
  | some ⟨.call op next, held, phase⟩ =>
    (Task.advance (w.free i) held phase w.repos op next).map fun (task, repos) =>
      ⟨repos, w.tasks.set i task⟩
  | _ => none

def run (w : World α) : List Nat → Option (World α)
  | [] => some w
  | i :: schedule => (w.step i).bind (·.run schedule)

def Reachable (w w' : World α) : Prop := ∃ schedule, w.run schedule = some w'

/-- Task `i` waits to acquire a lock that another task, `j`, holds. -/
def WaitsFor (w : World α) (i j : Nat) : Prop :=
  i ≠ j ∧ ∃ ti tj repo id exclusive, w.tasks[i]? = some ti ∧
    ti.request = some (repo, id, exclusive) ∧ w.tasks[j]? = some tj ∧
    ∃ held ∈ tj.held, held.blocks repo id exclusive

/-- No task reaches itself along the wait-for relation. -/
def Acyclic (w : World α) : Prop := ∀ i, ¬ Relation.TransGen w.WaitsFor i i

/-- No nonempty set of tasks each waits for a lock another task of the set holds. -/
def DeadlockFree (w : World α) : Prop :=
  ∀ tasks : List Nat, tasks ≠ [] → ¬ ∀ i ∈ tasks, ∃ j ∈ tasks, w.WaitsFor i j

@[simp] theorem run_nil (w : World α) : w.run [] = some w := rfl

theorem run_cons (w : World α) (i : Nat) (schedule : List Nat) :
    w.run (i :: schedule) = (w.step i).bind (·.run schedule) := rfl

theorem run_append (w : World α) (first second : List Nat) :
    w.run (first ++ second) = (w.run first).bind (·.run second) := by
  induction first generalizing w with
  | nil => rfl
  | cons i first ih =>
    cases stepped : w.step i <;> simp [run_cons, stepped, ih]

theorem step_some {w w' : World α} {i : Nat} (stepped : w.step i = some w') :
    ∃ op next held phase task, w.tasks[i]? = some ⟨.call op next, held, phase⟩ ∧
      Task.advance (w.free i) held phase w.repos op next = some (task, w'.repos) ∧
      w'.tasks = w.tasks.set i task := by
  unfold step at stepped
  split at stepped
  · obtain ⟨⟨task, repos⟩, advanced, rfl⟩ := Option.map_eq_some'.mp stepped
    exact ⟨_, _, _, _, task, ‹_›, advanced, rfl⟩
  · cases stepped

theorem WaitsFor.blocked {w : World α} {i j : Nat} (waits : w.WaitsFor i j) : w.step i = none := by
  obtain ⟨other, ti, tj, repo, id, exclusive, found, request, foundHolder, held, member, blocks⟩ :=
    waits
  have taken : w.free i repo id exclusive = false := by
    simp only [free, List.all_eq_false, List.mem_enum_iff_getElem?]
    exact ⟨(j, tj), foundHolder, by simp [Ne.symm other, List.all_eq_false]; exact ⟨held, member, blocks⟩⟩
  obtain ⟨_ | ⟨op, next⟩, held, phase⟩ := ti
  · cases request
  cases op <;> simp only [Task.request, Option.some.injEq, Prod.mk.injEq, reduceCtorEq] at request
  obtain ⟨rfl, rfl, rfl⟩ := request
  simp only [step, found, Task.advance, taken, Bool.false_eq_true, if_false, Option.map_none']

@[simp] theorem step_alone (repos : Repos) (op : RepoOp) (next : op.Response → Prog α)
    (held : List HeldLock) (phase : StorePhase) :
    (World.mk repos [⟨.call op next, held, phase⟩]).step 0 =
      (Task.advance (fun _ _ _ => true) held phase repos op next).map fun (task, repos) =>
        ⟨repos, [task]⟩ := by
  have alone : (World.mk repos [⟨.call op next, held, phase⟩]).free 0 = fun _ _ _ => true := by
    funext repo id exclusive
    rfl
  simp [step, alone]

/-- A task alone in its world runs its program as `Prog.run` does: the three steps of a
`Store` together store the blob, and its locks are granted at once. -/
theorem run_alone (p : Prog α) (repos : Repos) (held : List HeldLock) :
    ∃ n held', (World.mk repos [⟨p, held, .idle⟩]).run (List.replicate n 0) =
      some ⟨(p.run repos).2, [⟨.pure (p.run repos).1, held', .idle⟩]⟩ := by
  induction p generalizing repos held with
  | pure value => exact ⟨0, held, rfl⟩
  | call op next ih =>
    cases op
    case lock repo id exclusive =>
      obtain ⟨n, held', ran⟩ := ih (.ok ()) repos (⟨repo, id, exclusive⟩ :: held)
      exact ⟨n + 1, held', by simpa [run_cons, Task.advance, Prog.run, RepoOp.apply] using ran⟩
    case release repo id exclusive =>
      obtain ⟨n, held', ran⟩ := ih () repos (held.erase ⟨repo, id, exclusive⟩)
      exact ⟨n + 1, held', by simpa [run_cons, Task.advance, Prog.run, RepoOp.apply] using ran⟩
    case store repo blob =>
      obtain ⟨n, held', ran⟩ :=
        ih (.ok ()) (repos.set repo ((repos.get repo).insert blob.id blob.body)) held
      refine ⟨n + 1 + 1 + 1, held', ?_⟩
      simpa [List.replicate_succ, run_cons, Task.advance, Prog.run, RepoOp.apply,
        Repos.write_truncate_create] using ran
    all_goals
      obtain ⟨n, held', ran⟩ := ih _ _ held
      exact ⟨n + 1, held', by simpa [run_cons, Task.advance, Prog.run] using ran⟩

/-- Service code alone in its world ends as `ServiceM.exec` ends. -/
theorem exec_alone (x : ServiceM α) (repos : Repos) :
    ∃ n held, (start repos [x.run]).run (List.replicate n 0) =
      some ⟨(x.exec repos).2, [⟨.pure (x.exec repos).1, held, .idle⟩]⟩ :=
  run_alone x.run repos []

end World

end Homecase
