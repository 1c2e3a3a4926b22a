import Homecase.Service.Concurrent

namespace Homecase

/-! # What a call touches

A call that holds the locks guarding every blob it reads or writes behaves as it would alone.
This module sets that up for any program over the repositories.

`Prog.Calls ok` says every repository call a program can make satisfies `ok`: with `Touches P`,
that it reads and writes only blobs of `P`. `Prog.Solo` is a program run alone, one step at a
time and with `Store` in its three steps. `Prog.rest` is what such a run still has to do; it
does not change along the run (`Prog.Solo.rest_eq`), so a run alone that reaches a result has
computed `Prog.run`. A step of the same program among other tasks, on repositories that agree
on `P` with the run alone, is a step of that run (`Prog.advance_agree`).

`Prog.wrap` is the program of a call that holds locks: its current body, inside the releases
that its `withLock`s still owe. `World.LocksExclusive` is the lock table's own invariant: no
two tasks hold locks on one blob that exclude each other.
-/

abbrev Blobs := RepoName → BlobID → Prop

namespace RepoOp

/-- `Exists`, `Fetch`, `Store` or `Delete` of a blob of `P`; no lock, release or `DeleteAll`. -/
def Touches (P : Blobs) : RepoOp → Prop
  | .exists repo id => P repo id
  | .fetch repo id => P repo id
  | .delete repo id => P repo id
  | .store repo blob => P repo blob.id
  | _ => False

/-- Not a `Store` to the blob `id` of `repo`: the call leaves that blob as it is, or deletes it. -/
def Spares (repo : RepoName) (id : BlobID) : RepoOp → Prop
  | .store repo' blob => repo' = repo → blob.id ≠ id
  | _ => True

/-- A call that changes no blob and takes no exclusive lock. -/
def ReadOnly : RepoOp → Prop
  | .lock _ _ exclusive => exclusive = false
  | .release .. => True
  | .exists .. => True
  | .fetch .. => True
  | _ => False

end RepoOp

namespace Prog

/-- Every repository call the program can make, whatever the answers before it, satisfies `ok`. -/
def Calls (ok : RepoOp → Prop) : Prog α → Prop
  | .pure _ => True
  | .call op next => ok op ∧ ∀ response, (next response).Calls ok

variable {ok : RepoOp → Prop}

theorem calls_bind {x : Prog α} {f : α → Prog β} (first : x.Calls ok) (rest : ∀ a, (f a).Calls ok) :
    (x >>= f).Calls ok := by
  induction x with
  | pure a => exact rest a
  | call op next ih => exact ⟨first.1, fun response => ih response (first.2 response)⟩

theorem calls_issue {op : RepoOp} (allowed : ok op) : (issue op).Calls ok :=
  ⟨allowed, fun _ => trivial⟩

end Prog

namespace ServiceM

variable {ok : RepoOp → Prop}

theorem calls_bind {x : ServiceM α} {f : α → ServiceM β} (first : x.run.Calls ok)
    (rest : ∀ a, (f a).run.Calls ok) : (x >>= f).run.Calls ok := by
  rw [ExceptT.run_bind]
  refine Prog.calls_bind first fun result => ?_
  cases result
  exacts [trivial, rest _]

theorem calls_pure (a : α) : (pure a : ServiceM α).run.Calls ok := trivial

theorem calls_throw (err : ServiceError) : (throw err : ServiceM α).run.Calls ok := trivial

theorem calls_mk_pure (result : Except ServiceError α) :
    (ExceptT.mk (pure result) : ServiceM α).run.Calls ok := trivial

theorem calls_ite {c : Prop} [Decidable c] {x y : ServiceM α} (yes : x.run.Calls ok) (no : y.run.Calls ok) :
    (if c then x else y).run.Calls ok := by
  split
  exacts [yes, no]

theorem calls_repoExists {repo : RepoName} {id : BlobID} (allowed : ok (.exists repo id)) :
    (repoExists repo id).run.Calls ok := ⟨allowed, fun _ => trivial⟩

theorem calls_repoStore {repo : RepoName} {blob : Blob} (allowed : ok (.store repo blob)) :
    (repoStore repo blob).run.Calls ok := ⟨allowed, fun _ => trivial⟩

theorem calls_repoFetch {repo : RepoName} {id : BlobID} (allowed : ok (.fetch repo id)) :
    (repoFetch repo id).run.Calls ok := ⟨allowed, fun _ => trivial⟩

theorem calls_repoDelete {repo : RepoName} {id : BlobID} (allowed : ok (.delete repo id)) :
    (repoDelete repo id).run.Calls ok := ⟨allowed, fun _ => trivial⟩

theorem calls_withLock {repo : RepoName} {id : BlobID} {exclusive : Bool} {body : ServiceM α}
    (lock : ok (.lock repo id exclusive)) (release : ok (.release repo id exclusive))
    (inside : body.run.Calls ok) : (withLock repo id exclusive body).run.Calls ok :=
  ⟨lock, fun result => by
    rcases result with _ | ⟨⟩
    · trivial
    · show (body.run >>= fun result =>
        Prog.issue (.release repo id exclusive) >>= fun _ => pure result).Calls ok
      exact Prog.calls_bind inside fun _ => Prog.calls_bind (Prog.calls_issue release) fun _ => trivial⟩

end ServiceM

namespace Repos

/-- Two repository states that hold the same bodies on the blobs of `P`. -/
def Agree (P : Blobs) (s t : Repos) : Prop := ∀ repo id, P repo id → s.get repo id = t.get repo id

theorem get_set_insert (repos : Repos) (repo other : RepoName) (id id' : BlobID) (body : Bytes) :
    (repos.set repo ((repos.get repo).insert id body)).get other id' =
      if other = repo ∧ id' = id then some body else repos.get other id' := by
  by_cases same : other = repo
  · subst same
    by_cases at_id : id' = id <;> simp [at_id]
  · simp [same]

theorem get_set_erase (repos : Repos) (repo other : RepoName) (id id' : BlobID) :
    (repos.set repo ((repos.get repo).erase id)).get other id' =
      if other = repo ∧ id' = id then none else repos.get other id' := by
  by_cases same : other = repo
  · subst same
    by_cases at_id : id' = id <;> simp [at_id]
  · simp [same]

/-- The three steps of `storeBlob` each change at most the blob they write, and what they leave
there depends only on what was there. -/
theorem get_create (repos : Repos) (repo other : RepoName) (id id' : BlobID) :
    (repos.create repo id).get other id' =
      if other = repo ∧ id' = id then some ((repos.get repo id).getD []) else repos.get other id' := by
  unfold create
  split <;> rename_i found
  · split_ifs with at_blob
    · obtain ⟨rfl, rfl⟩ := at_blob
      simp [found]
    · rfl
  · rw [get_set_insert, found]
    rfl

theorem get_truncate (repos : Repos) (repo other : RepoName) (id id' : BlobID) (size : Nat) :
    (repos.truncate repo id size).get other id' =
      if other = repo ∧ id' = id then (repos.get repo id).map (truncateTo size)
      else repos.get other id' := by
  unfold truncate
  split <;> rename_i found
  · rw [get_set_insert]
    split_ifs <;> simp_all
  · split_ifs with at_blob
    · obtain ⟨rfl, rfl⟩ := at_blob
      simp [found]
    · rfl

theorem get_write (repos : Repos) (repo other : RepoName) (blob : Blob) (id' : BlobID) :
    (repos.write repo blob).get other id' =
      if other = repo ∧ id' = blob.id then (repos.get repo blob.id).map fun _ => blob.body
      else repos.get other id' := by
  unfold write
  split <;> rename_i found
  · rw [get_set_insert]
    split_ifs <;> simp_all
  · split_ifs with at_blob
    · obtain ⟨rfl, rfl⟩ := at_blob
      simp [found]
    · rfl

theorem ext_get {s t : Repos} (same : ∀ repo id, s.get repo id = t.get repo id) : s = t := by
  cases s
  cases t
  congr <;> funext id
  exacts [same .data id, same .backref id, same .meta id, same .cache id]

/-- An update that changes at most the blob `id` of `repo`, to a body that depends only on
the body there, keeps two states that agree on `P` in agreement, if that blob is in `P`. -/
theorem Agree.update {P : Blobs} {s t : Repos} (agree : Agree P s t) {repo : RepoName} {id : BlobID}
    (inside : P repo id) {f : Repos → Repos} {g : Option Bytes → Option Bytes}
    (local_ : ∀ r repo' id', (f r).get repo' id' =
      if repo' = repo ∧ id' = id then g (r.get repo id) else r.get repo' id') :
    Agree P (f s) (f t) := by
  intro repo' id' inside'
  rw [local_, local_, agree repo id inside, agree repo' id' inside']

end Repos

namespace Task

variable {α : Type} {free : RepoName → BlobID → Bool → Bool} {held : List HeldLock} {phase : StorePhase}
  {op : RepoOp} {next : op.Response → Prog α} {task : Task α} {P : Blobs}

/-- A call on a blob answers and moves its task alike among other tasks and alone: what it does
depends on no lock. -/
theorem advance_touches (touches : op.Touches P) (repos : Repos) :
    advance free held phase repos op next =
      (advance (fun _ _ _ => true) [] phase repos op next).map fun (task, after) =>
        (⟨task.prog, held, task.phase⟩, after) := by
  cases op <;> simp only [RepoOp.Touches] at touches
  case store repo blob => cases phase <;> rfl
  all_goals rfl

theorem advance_frame (touches : op.Touches P) {repos after : Repos}
    (stepped : advance free held phase repos op next = some (task, after)) :
    ∀ repo id, ¬ P repo id → after.get repo id = repos.get repo id := by
  intro repo id outside
  have away {repo' : RepoName} {id' : BlobID} (inside : P repo' id') : ¬ (repo = repo' ∧ id = id') :=
    fun ⟨same, same'⟩ => outside (same ▸ same' ▸ inside)
  cases op <;> simp only [RepoOp.Touches] at touches
  case store repo' blob =>
    cases phase <;> simp only [advance, Option.some.injEq, Prod.mk.injEq] at stepped <;>
      obtain ⟨-, rfl⟩ := stepped
    · rw [Repos.get_create, if_neg (away touches)]
    · rw [Repos.get_truncate, if_neg (away touches)]
    · rw [Repos.get_write, if_neg (away touches)]
  case delete repo' id' =>
    simp only [advance, RepoOp.apply] at stepped
    split at stepped <;> simp only [Option.some.injEq, Prod.mk.injEq] at stepped <;>
      obtain ⟨-, rfl⟩ := stepped
    · rw [Repos.get_set_erase, if_neg (away touches)]
    · rfl
  case fetch repo' id' =>
    simp only [advance, RepoOp.apply] at stepped
    split at stepped <;> simp only [Option.some.injEq, Prod.mk.injEq] at stepped <;>
      obtain ⟨-, rfl⟩ := stepped <;> rfl
  case «exists» repo' id' =>
    simp only [advance, RepoOp.apply, Option.some.injEq, Prod.mk.injEq] at stepped
    rw [← stepped.2]

/-- A step on a blob of `P` does on repositories that agree on `P` what it does on these, and
leaves them agreeing on `P`. -/
theorem advance_agree (touches : op.Touches P) {s t after : Repos} (agree : Repos.Agree P s t)
    (stepped : advance free held phase s op next = some (task, after)) :
    ∃ after', advance free held phase t op next = some (task, after') ∧ Repos.Agree P after after' := by
  cases op <;> simp only [RepoOp.Touches] at touches
  case «exists» repo id =>
    simp only [advance, RepoOp.apply, Option.some.injEq, Prod.mk.injEq] at stepped
    obtain ⟨rfl, rfl⟩ := stepped
    exact ⟨t, by rw [agree repo id touches]; rfl, agree⟩
  case fetch repo id =>
    simp only [advance, RepoOp.apply, agree repo id touches] at stepped
    refine ⟨t, ?_, ?_⟩ <;> split at stepped <;> simp only [Option.some.injEq, Prod.mk.injEq] at stepped <;>
      obtain ⟨rfl, rfl⟩ := stepped
    all_goals first | exact agree | simp only [advance, RepoOp.apply, *]
  case delete repo id =>
    simp only [advance, RepoOp.apply, agree repo id touches] at stepped
    split at stepped <;> rename_i found <;> simp only [Option.some.injEq, Prod.mk.injEq] at stepped <;>
      obtain ⟨rfl, rfl⟩ := stepped
    · exact ⟨_, by simp only [advance, RepoOp.apply, found],
        agree.update touches (g := fun _ => none) fun r _ _ => Repos.get_set_erase r _ _ _ _⟩
    · exact ⟨t, by simp only [advance, RepoOp.apply, found], agree⟩
  case store repo blob =>
    cases phase <;> simp only [advance, Option.some.injEq, Prod.mk.injEq] at stepped <;>
      obtain ⟨rfl, rfl⟩ := stepped
    · exact ⟨_, rfl, agree.update touches (g := fun v => some (v.getD [])) fun r _ _ => Repos.get_create r _ _ _ _⟩
    · exact ⟨_, rfl, agree.update touches (g := Option.map (truncateTo blob.body.length))
        fun r _ _ => Repos.get_truncate r _ _ _ _ _⟩
    · exact ⟨_, rfl, agree.update touches (g := Option.map fun _ => blob.body)
        fun r _ _ => Repos.get_write r _ _ _ _⟩

/-- A step on a blob other than the blob `id` of `repo` leaves it, and a delete of it empties it. -/
theorem advance_spares {repo : RepoName} {id : BlobID} (spares : op.Spares repo id) {repos after : Repos}
    (stepped : advance free held phase repos op next = some (task, after)) :
    after.get repo id = repos.get repo id ∨ after.get repo id = none := by
  cases op
  case store repo' blob =>
    have away : ¬ (repo = repo' ∧ id = blob.id) := fun ⟨same, same'⟩ => spares same.symm same'.symm
    cases phase <;> simp only [advance, Option.some.injEq, Prod.mk.injEq] at stepped <;>
      obtain ⟨-, rfl⟩ := stepped <;> left
    · rw [Repos.get_create, if_neg away]
    · rw [Repos.get_truncate, if_neg away]
    · rw [Repos.get_write, if_neg away]
  case delete repo' id' =>
    simp only [advance, RepoOp.apply] at stepped
    split at stepped <;> simp only [Option.some.injEq, Prod.mk.injEq] at stepped <;>
      obtain ⟨-, rfl⟩ := stepped
    · rw [Repos.get_set_erase]
      split_ifs <;> simp
    · simp
  case deleteAll repo' id' pattern =>
    simp only [advance, RepoOp.apply, Option.some.injEq, Prod.mk.injEq] at stepped
    obtain ⟨-, rfl⟩ := stepped
    simp only [Repos.get_set]
    by_cases same : repo = repo'
    · subst same
      by_cases matched : globMatch (id' ++ pattern) id <;> simp [matched]
    · simp [same]
  case lock => simp only [advance] at stepped; split at stepped <;> simp_all
  all_goals simp only [advance, RepoOp.apply, Option.some.injEq, Prod.mk.injEq] at stepped
  all_goals first | exact .inl (congrArg (·.get repo id) stepped.2.symm) | skip
  split at stepped <;> simp only [Option.some.injEq, Prod.mk.injEq] at stepped <;>
    exact .inl (by rw [← stepped.2])

theorem advance_readOnly (reads : op.ReadOnly) {repos after : Repos}
    (stepped : advance free held phase repos op next = some (task, after)) : after = repos := by
  cases op <;> simp only [RepoOp.ReadOnly] at reads
  case lock => simp only [advance] at stepped; split at stepped <;> simp_all
  case fetch =>
    simp only [advance, RepoOp.apply] at stepped
    split at stepped <;> simp_all
  all_goals simp_all [advance, RepoOp.apply]

theorem advance_calls {ok : RepoOp → Prop} (calls : (Prog.call op next).Calls ok) {repos after : Repos}
    (stepped : advance free held phase repos op next = some (task, after)) : task.prog.Calls ok := by
  cases op
  case lock =>
    simp only [advance] at stepped
    split at stepped <;> simp only [Option.some.injEq, Prod.mk.injEq, reduceCtorEq] at stepped
    obtain ⟨rfl, -⟩ := stepped
    exact calls.2 _
  case store =>
    cases phase <;> simp only [advance, Option.some.injEq, Prod.mk.injEq] at stepped <;>
      obtain ⟨rfl, -⟩ := stepped
    exacts [calls, calls, calls.2 _]
  all_goals simp only [advance, Option.some.injEq, Prod.mk.injEq] at stepped; rw [← stepped.1]; exact calls.2 _

/-- A step keeps the locks its task held, adds the one it took, or drops the one it released. -/
theorem advance_held {repos after : Repos}
    (stepped : advance free held phase repos op next = some (task, after)) :
    ∀ h ∈ task.held, h ∈ held ∨ (op = .lock h.repo h.id h.exclusive ∧ free h.repo h.id h.exclusive = true) := by
  intro h member
  cases op
  case lock repo id exclusive =>
    simp only [advance] at stepped
    split at stepped <;> simp only [Option.some.injEq, Prod.mk.injEq, reduceCtorEq] at stepped
    obtain ⟨rfl, -⟩ := stepped
    rcases List.mem_cons.mp member with rfl | kept
    · exact .inr ⟨rfl, ‹_›⟩
    · exact .inl kept
  case release => simp only [advance, Option.some.injEq, Prod.mk.injEq] at stepped
                  rw [← stepped.1] at member
                  exact .inl (List.erase_subset _ _ member)
  case store => cases phase <;> simp only [advance, Option.some.injEq, Prod.mk.injEq] at stepped <;>
                  rw [← stepped.1] at member <;> exact .inl member
  all_goals simp only [advance, Option.some.injEq, Prod.mk.injEq] at stepped; rw [← stepped.1] at member
            exact .inl member

end Task

namespace Prog

/-- What a program still does from where it is, run alone: a `Store` it has begun is finished
first, then the program runs on. -/
def rest : Prog α → StorePhase → Repos → α × Repos
  | .call (.store repo blob) next, .created, repos =>
    (next (.ok ())).run ((repos.truncate repo blob.id blob.body.length).write repo blob)
  | .call (.store repo blob) next, .truncated, repos => (next (.ok ())).run (repos.write repo blob)
  | p, _, repos => p.run repos

theorem rest_idle (p : Prog α) (repos : Repos) : p.rest .idle repos = p.run repos := by
  rcases p with _ | ⟨_ | _ | _ | _ | _ | _ | _, _⟩ <;> rfl

@[simp] theorem rest_pure (value : α) (phase : StorePhase) (repos : Repos) :
    (Prog.pure value).rest phase repos = (value, repos) := by
  cases phase <;> rfl

/-- A step alone does part of what was left, and leaves the rest. -/
theorem rest_advance {free : RepoName → BlobID → Bool → Bool} {held : List HeldLock} {phase : StorePhase}
    {repos after : Repos} {op : RepoOp} {next : op.Response → Prog α} {task : Task α}
    (stepped : Task.advance free held phase repos op next = some (task, after)) :
    task.prog.rest task.phase after = (Prog.call op next).rest phase repos := by
  cases op
  case lock =>
    simp only [Task.advance] at stepped
    split at stepped <;> simp only [Option.some.injEq, Prod.mk.injEq, reduceCtorEq] at stepped
    obtain ⟨rfl, rfl⟩ := stepped
    cases phase <;> exact rest_idle _ _
  case store repo blob =>
    cases phase <;> simp only [Task.advance, Option.some.injEq, Prod.mk.injEq] at stepped <;>
      obtain ⟨rfl, rfl⟩ := stepped
    · show (next (.ok ())).run _ = (next (.ok ())).run _
      rw [Repos.write_truncate_create]
      rfl
    · rfl
    · exact rest_idle _ _
  all_goals
    simp only [Task.advance, Option.some.injEq, Prod.mk.injEq] at stepped
    obtain ⟨rfl, rfl⟩ := stepped
    cases phase <;> exact rest_idle _ _

/-- The states a program reaches run alone from `start`: its current body, how far it has got
through a `Store`, and the repositories. -/
inductive Solo (start : Repos) (p : Prog α) : Prog α → StorePhase → Repos → Prop
  | refl : Solo start p p .idle start
  | step {op : RepoOp} {next : op.Response → Prog α} {phase : StorePhase} {repos after : Repos}
      {task : Task α} :
      Solo start p (.call op next) phase repos →
      Task.advance (fun _ _ _ => true) [] phase repos op next = some (task, after) →
      Solo start p task.prog task.phase after

namespace Solo

variable {start : Repos} {p cur : Prog α} {phase : StorePhase} {repos : Repos}

/-- Along a run alone, what is left to do ends where the whole run ends. -/
theorem rest_eq (solo : Solo start p cur phase repos) : cur.rest phase repos = p.run start := by
  induction solo with
  | refl => exact rest_idle _ _
  | step _ stepped ih => rw [rest_advance stepped, ih]

/-- A run alone that has reached a result has computed `Prog.run`. -/
theorem run_eq {value : α} (solo : Solo start p (.pure value) phase repos) :
    p.run start = (value, repos) := by
  rw [← solo.rest_eq, rest_pure]

theorem calls {ok : RepoOp → Prop} (solo : Solo start p cur phase repos) (calls : p.Calls ok) :
    cur.Calls ok := by
  induction solo with
  | refl => exact calls
  | step _ stepped ih => exact Task.advance_calls ih stepped

theorem frame {P : Blobs} (solo : Solo start p cur phase repos) (within : p.Calls (RepoOp.Touches P)) :
    ∀ repo id, ¬ P repo id → repos.get repo id = start.get repo id := by
  induction solo with
  | refl => exact fun _ _ _ => rfl
  | step earlier stepped ih =>
    intro repo id outside
    rw [Task.advance_frame (earlier.calls within).1 stepped repo id outside, ih repo id outside]

theorem spares {repo : RepoName} {id : BlobID} (solo : Solo start p cur phase repos)
    (spares : p.Calls (RepoOp.Spares repo id)) :
    repos.get repo id = start.get repo id ∨ repos.get repo id = none := by
  induction solo with
  | refl => exact .inl rfl
  | step earlier stepped ih =>
    rcases Task.advance_spares (earlier.calls spares).1 stepped with same | gone
    · rwa [same]
    · exact .inr gone

/-- Runs alone of a program on blobs of `P`, from states that agree on `P`, reach the same
places, on states that agree on `P`. -/
theorem transport {P : Blobs} {start' : Repos} (solo : Solo start p cur phase repos)
    (within : p.Calls (RepoOp.Touches P)) (agree : Repos.Agree P start start') :
    ∃ repos', Solo start' p cur phase repos' ∧ Repos.Agree P repos repos' := by
  induction solo with
  | refl => exact ⟨start', .refl, agree⟩
  | step earlier stepped ih =>
    obtain ⟨repos', solo', agree'⟩ := ih
    obtain ⟨after', stepped', agreeAfter⟩ :=
      Task.advance_agree (earlier.calls within).1 agree' stepped
    exact ⟨after', solo'.step stepped', agreeAfter⟩

end Solo

/-- What `withLock` runs once its lock is granted: the body, then the release, with the body's
result. -/
def afterRelease (held : HeldLock) (p : Prog α) : Prog α :=
  p >>= fun result => issue (.release held.repo held.id held.exclusive) >>= fun _ => pure result

/-- A call's program while it holds the locks `held`, innermost first: its current body `p`,
the releases its `withLock`s still owe, and then `k` of the result. -/
def wrap (k : α → Prog β) : List HeldLock → Prog α → Prog β
  | [], p => p >>= k
  | held :: rest, p => wrap k rest (afterRelease held p)

theorem wrap_call (k : α → Prog β) (held : List HeldLock) (op : RepoOp) (next : op.Response → Prog α) :
    wrap k held (.call op next) = .call op fun response => wrap k held (next response) := by
  induction held generalizing next with
  | nil => rfl
  | cons h rest ih => exact ih _

theorem wrap_pure_cons (k : α → Prog β) (h : HeldLock) (rest : List HeldLock) (value : α) :
    wrap k (h :: rest) (.pure value) =
      .call (.release h.repo h.id h.exclusive) fun _ => wrap k rest (.pure value) :=
  wrap_call k rest _ _

/-- A call holding a lock has not returned: a release is still ahead. -/
theorem wrap_cons_call (k : α → Prog β) (h : HeldLock) (rest : List HeldLock) (p : Prog α) :
    ∃ op next, wrap k (h :: rest) p = .call op next := by
  cases p with
  | pure value => exact ⟨_, _, wrap_pure_cons k h rest value⟩
  | call op next => exact ⟨op, _, wrap_call k _ op next⟩

theorem withLock_run (repo : RepoName) (id : BlobID) (exclusive : Bool) (body : ServiceM α) :
    (ServiceM.withLock repo id exclusive body).run = .call (.lock repo id exclusive) fun result =>
      match result with
      | .error err => .pure (.error err)
      | .ok () => afterRelease ⟨repo, id, exclusive⟩ body.run := rfl

end Prog

namespace Task

@[simp] theorem returned_wrap_cons {α β : Type} (k : α → Prog β) (h : HeldLock) (rest : List HeldLock)
    (p : Prog α) (held : List HeldLock) (phase : StorePhase) :
    Task.returned ⟨Prog.wrap k (h :: rest) p, held, phase⟩ = none := by
  obtain ⟨op, next, called⟩ := Prog.wrap_cons_call k h rest p
  simp only [Task.returned, called]

theorem advance_wrap {α β : Type} {phase : StorePhase} {op : RepoOp} {next : op.Response → Prog α}
    (k : α → Prog β) (wrapped : List HeldLock) {free' : RepoName → BlobID → Bool → Bool}
    {held' : List HeldLock} {repos : Repos} :
    advance free' held' phase repos op (fun response => Prog.wrap k wrapped (next response)) =
      (advance free' held' phase repos op next).map fun (task, after) =>
        (⟨Prog.wrap k wrapped task.prog, task.held, task.phase⟩, after) := by
  cases op
  case lock => simp only [advance]; split <;> rfl
  case store => cases phase <;> simp only [advance, Option.map_some', Prog.wrap_call]
  all_goals rfl

end Task

theorem HeldLock.blocks_comm (h h' : HeldLock) :
    h.blocks h'.repo h'.id h'.exclusive = h'.blocks h.repo h.id h.exclusive := by
  simp only [HeldLock.blocks, eq_comm, Bool.or_comm]

namespace World

variable {α β : Type} {w w' : World β} {i : Nat}

theorem free_spec {repo : RepoName} {id : BlobID} {exclusive : Bool}
    (free : w.free i repo id exclusive = true) {j : Nat} {task : Task β} (other : j ≠ i)
    (found : w.tasks[j]? = some task) : ∀ h ∈ task.held, h.blocks repo id exclusive = false := by
  have listed := List.all_eq_true.mp free (j, task) (List.mem_enum_iff_getElem?.mpr found)
  simp only [Bool.or_eq_true, decide_eq_true_eq, other, false_or, List.all_eq_true,
    Bool.not_eq_true'] at listed
  exact listed

/-- The call of a task's body on a blob is the step it takes, inside the same lock frames. -/
theorem step_wrap_touches {k : α → Prog β} {held : List HeldLock} {phase : StorePhase} {P : Blobs}
    {op : RepoOp} {next : op.Response → Prog α}
    (found : w.tasks[i]? = some ⟨Prog.wrap k held (.call op next), held, phase⟩) (touches : op.Touches P)
    (stepped : w.step i = some w') :
    ∃ task, Task.advance (fun _ _ _ => true) [] phase w.repos op next = some (task, w'.repos) ∧
      w'.tasks = w.tasks.set i ⟨Prog.wrap k held task.prog, held, task.phase⟩ := by
  simp only [step, found, Prog.wrap_call] at stepped
  rw [Task.advance_touches touches, Task.advance_wrap, Option.map_map, Option.map_map] at stepped
  obtain ⟨⟨task, after⟩, advanced, rfl⟩ := Option.map_eq_some'.mp stepped
  exact ⟨task, advanced, rfl⟩

theorem step_wrap_withLock {γ : Type} {held : List HeldLock} {repo : RepoName} {id : BlobID}
    {exclusive : Bool} {body : ServiceM γ} {k : Except ServiceError γ → Prog β}
    (found : w.tasks[i]? = some ⟨Prog.wrap k held (ServiceM.withLock repo id exclusive body).run, held, .idle⟩)
    (stepped : w.step i = some w') :
    w.free i repo id exclusive = true ∧
      w' = ⟨w.repos, w.tasks.set i
        ⟨Prog.wrap k (⟨repo, id, exclusive⟩ :: held) body.run, ⟨repo, id, exclusive⟩ :: held, .idle⟩⟩ := by
  simp only [step, found, Prog.withLock_run, Prog.wrap_call, Task.advance] at stepped
  split at stepped <;> simp only [Option.map_some', Option.map_none', Option.some.injEq, reduceCtorEq] at stepped
  exact ⟨‹_›, stepped.symm⟩

theorem step_wrap_release {k : α → Prog β} {h : HeldLock} {rest : List HeldLock} {value : α}
    {phase : StorePhase} (found : w.tasks[i]? = some ⟨Prog.wrap k (h :: rest) (.pure value), h :: rest, phase⟩)
    (stepped : w.step i = some w') :
    w' = ⟨w.repos, w.tasks.set i ⟨Prog.wrap k rest (.pure value), rest, .idle⟩⟩ := by
  simp only [step, found, Prog.wrap_pure_cons, Task.advance, List.erase_cons_head, Option.map_some',
    Option.some.injEq] at stepped
  exact stepped.symm

theorem step_pure {value : β} {held : List HeldLock} {phase : StorePhase}
    (found : w.tasks[i]? = some ⟨.pure value, held, phase⟩) : w.step i = none := by
  simp only [step, found]

theorem step_readOnly {task : Task β} (found : w.tasks[i]? = some task)
    (reads : task.prog.Calls RepoOp.ReadOnly) (stepped : w.step i = some w') :
    w'.repos = w.repos ∧ ∃ task', w'.tasks = w.tasks.set i task' ∧ task'.prog.Calls RepoOp.ReadOnly ∧
      ∀ h ∈ task'.held, h ∈ task.held ∨ h.exclusive = false := by
  obtain ⟨op, next, held, phase, task', found', advanced, tasks⟩ := step_some stepped
  rw [found, Option.some.injEq] at found'
  subst found'
  refine ⟨Task.advance_readOnly reads.1 advanced, task', tasks, Task.advance_calls reads advanced,
    fun h member => ?_⟩
  rcases Task.advance_held advanced h member with kept | ⟨rfl, -⟩
  · exact .inl kept
  · exact .inr reads.1

theorem step_getElem?_ne (stepped : w.step i = some w') {j : Nat} (other : i ≠ j) :
    w'.tasks[j]? = w.tasks[j]? := by
  obtain ⟨_, _, _, _, _, _, _, tasks⟩ := step_some stepped
  rw [tasks, List.getElem?_set_ne other]

theorem step_returned (stepped : w.step i = some w') {j : Nat} {value : β}
    (returned : w.tasks[j]?.bind Task.returned = some value) :
    w'.tasks[j]?.bind Task.returned = some value := by
  by_cases same : i = j
  · obtain ⟨_, _, _, _, _, found, -, -⟩ := step_some stepped
    subst same
    simp [found, Task.returned] at returned
  · rwa [step_getElem?_ne stepped same]

theorem run_returned {schedule : List Nat} (ran : w.run schedule = some w') {j : Nat} {value : β}
    (returned : w.tasks[j]?.bind Task.returned = some value) :
    w'.tasks[j]?.bind Task.returned = some value := by
  induction schedule generalizing w with
  | nil => rwa [← Option.some_inj.mp ran]
  | cons i schedule ih =>
    obtain ⟨w₁, stepped, ran⟩ := Option.bind_eq_some.mp ran
    exact ih ran (step_returned stepped returned)

/-- No two tasks hold locks on one blob that exclude each other. -/
def LocksExclusive (w : World α) : Prop :=
  ∀ (i j : Nat) (ti tj : Task α), i ≠ j → w.tasks[i]? = some ti → w.tasks[j]? = some tj →
    ∀ h ∈ ti.held, ∀ h' ∈ tj.held, h.blocks h'.repo h'.id h'.exclusive = false

theorem locksExclusive_start (repos : Repos) (progs : List (Prog α)) :
    (start repos progs).LocksExclusive := by
  intro i j ti tj _ found _ h member
  simp only [start, List.getElem?_map, Option.map_eq_some'] at found
  obtain ⟨_, _, rfl⟩ := found
  cases member

/-- Every step keeps the locks held exclusive: a task takes a lock only when it is free. -/
theorem LocksExclusive.step (exclusive : w.LocksExclusive) (stepped : w.step i = some w') :
    w'.LocksExclusive := by
  obtain ⟨op, next, held, phase, task, found, advanced, tasks⟩ := step_some stepped
  have before (j : Nat) (tj : Task β) (found' : w'.tasks[j]? = some tj) :
      ∃ t, w.tasks[j]? = some t ∧
        ∀ h ∈ tj.held, h ∈ t.held ∨ (j = i ∧ w.free i h.repo h.id h.exclusive = true) := by
    rw [tasks, List.getElem?_set] at found'
    split_ifs at found' with same inside
    · subst same
      obtain rfl := Option.some_inj.mp found'
      exact ⟨_, found, fun h member => (Task.advance_held advanced h member).imp id fun taken => ⟨rfl, taken.2⟩⟩
    · exact ⟨tj, found', fun h member => .inl member⟩
  intro j j' tj tj' differ found' found'' h member h' member'
  obtain ⟨t, was, held_t⟩ := before j tj found'
  obtain ⟨t', was', held_t'⟩ := before j' tj' found''
  rcases held_t h member with old | ⟨rfl, taken⟩ <;> rcases held_t' h' member' with old' | ⟨rfl, taken'⟩
  · exact exclusive j j' t t' differ was was' h old h' old'
  · exact free_spec taken' differ was h old
  · rw [HeldLock.blocks_comm]
    exact free_spec taken (Ne.symm differ) was' h' old'
  · exact absurd rfl differ

end World

end Homecase
