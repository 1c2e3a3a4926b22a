import Homecase.Service.Concurrent
import Homecase.Image.Service
import Mathlib.Data.List.MinMax

namespace Homecase

/-! # Locks are taken in one order

Every lock an image service call takes is on the meta, the data or the cache repository, and a
call asks for a lock only while every lock it holds ranks lower: the meta lock before the data
lock in `BlobMediaService.Store`, `Delete` and `Fetch`, and a cache lock only once the media
service call has returned, so with nothing held. `Prog.Ordered` says this of a program: it
follows the program's calls with the locks held along the way, and asks at each `Lock` that the
locks held rank below the one requested. A step of a world keeps it true of every task
(`World.LockOrdered.step`), and along an edge of the wait-for relation the rank of the lock
waited for rises (`World.LockOrdered.rank_lt`). So no world the calls reach, under any schedule,
has a cycle of tasks each waiting for a lock the next one holds.
-/

/-- The order locks are taken in: meta, then data, then cache. Backref blobs are never locked. -/
def lockRank : RepoName → Nat
  | .meta => 0
  | .data => 1
  | .backref => 1
  | .cache => 2

namespace Prog

/-- Run from a point where the task holds `held`, the program asks for a lock only while every
lock it holds ranks below it, and it ends, holding `held'` with result `a`, where
`post held' a`. -/
def Ordered (post : List HeldLock → α → Prop) : List HeldLock → Prog α → Prop
  | held, .pure value => post held value
  | held, .call (.lock repo id exclusive) next =>
    (∀ h ∈ held, lockRank h.repo < lockRank repo) ∧
      Ordered post (⟨repo, id, exclusive⟩ :: held) (next (.ok ()))
  | held, .call (.release repo id exclusive) next =>
    Ordered post (held.erase ⟨repo, id, exclusive⟩) (next ())
  | held, .call _ next => ∀ response, Ordered post held (next response)

variable {post post' : List HeldLock → α → Prop} {held : List HeldLock}

theorem Ordered.mono {p : Prog α} (ordered : p.Ordered post held)
    (weaker : ∀ held a, post held a → post' held a) : p.Ordered post' held := by
  induction p generalizing held with
  | pure value => exact weaker _ _ ordered
  | call op next ih =>
    cases op <;> simp only [Ordered] at ordered ⊢
    case lock => exact ⟨ordered.1, ih _ ordered.2⟩
    case release => exact ih _ ordered
    all_goals exact fun response => ih _ (ordered response)

theorem ordered_bind {post : List HeldLock → β → Prop} (x : Prog α) (f : α → Prog β) :
    (x >>= f).Ordered post held ↔ x.Ordered (fun held' a => (f a).Ordered post held') held := by
  induction x generalizing held with
  | pure value => rfl
  | call op next ih =>
    show (Prog.bind (.call op next) f).Ordered post held ↔ _
    cases op <;> simp only [Prog.bind, Ordered] <;> simp only [← ih] <;> rfl

end Prog

namespace ServiceM

/-- `Prog.Ordered` of service code, whose result is a value or an error. -/
def Ordered (post : List HeldLock → Except ServiceError α → Prop) (held : List HeldLock)
    (x : ServiceM α) : Prop :=
  x.run.Ordered post held

variable {post : List HeldLock → Except ServiceError β → Prop} {held : List HeldLock}

theorem ordered_bind (x : ServiceM α) (f : α → ServiceM β) :
    (x >>= f).Ordered post held ↔
      x.Ordered (fun held' result => match result with
        | .ok a => (f a).Ordered post held'
        | .error err => post held' (.error err)) held := by
  simp only [Ordered, ExceptT.run_bind, Prog.ordered_bind]
  constructor <;> refine fun ordered => ordered.mono fun held' result => ?_ <;>
    cases result <;> exact id

@[simp] theorem ordered_pure (value : β) :
    (Pure.pure value : ServiceM β).Ordered post held ↔ post held (.ok value) := Iff.rfl

@[simp] theorem ordered_throw (err : ServiceError) :
    (throw err : ServiceM β).Ordered post held ↔ post held (.error err) := Iff.rfl

@[simp] theorem ordered_mk_pure (result : Except ServiceError β) :
    Ordered post held (ExceptT.mk (Pure.pure result) : ServiceM β) ↔ post held result := Iff.rfl

/-- A statement of every result is one of every error and one of every value. -/
@[simp] theorem forall_except {P : Except ServiceError α → Prop} :
    (∀ result, P result) ↔ (∀ err, P (.error err)) ∧ ∀ value, P (.ok value) :=
  ⟨fun holds => ⟨fun _ => holds _, fun _ => holds _⟩, fun ⟨error, ok⟩ result => by
    cases result
    exacts [error _, ok _]⟩

theorem ordered_ite (c : Prop) [Decidable c] (x y : ServiceM β) :
    (if c then x else y).Ordered post held ↔ (c → x.Ordered post held) ∧ (¬ c → y.Ordered post held) := by
  by_cases holds : c <;> simp [holds]

@[simp] theorem ordered_repoExists {post : List HeldLock → Except ServiceError Bool → Prop}
    (repo : RepoName) (id : BlobID) :
    (repoExists repo id).Ordered post held ↔ ∀ found, post held (.ok found) := Iff.rfl

@[simp] theorem ordered_repoStore {post : List HeldLock → Except ServiceError Unit → Prop}
    (repo : RepoName) (blob : Blob) :
    (repoStore repo blob).Ordered post held ↔ ∀ result, post held result := Iff.rfl

@[simp] theorem ordered_repoFetch {post : List HeldLock → Except ServiceError Bytes → Prop}
    (repo : RepoName) (id : BlobID) :
    (repoFetch repo id).Ordered post held ↔ ∀ result, post held result := Iff.rfl

@[simp] theorem ordered_repoDelete {post : List HeldLock → Except ServiceError Unit → Prop}
    (repo : RepoName) (id : BlobID) :
    (repoDelete repo id).Ordered post held ↔ ∀ result, post held result := Iff.rfl

@[simp] theorem ordered_repoDeleteAll {post : List HeldLock → Except ServiceError Unit → Prop}
    (repo : RepoName) (id : BlobID) (pattern : Bytes) :
    (repoDeleteAll repo id pattern).Ordered post held ↔ ∀ result, post held result := Iff.rfl

theorem ordered_withLock (repo : RepoName) (id : BlobID) (exclusive : Bool) (body : ServiceM β) :
    (withLock repo id exclusive body).Ordered post held ↔
      (∀ h ∈ held, lockRank h.repo < lockRank repo) ∧
        body.Ordered (fun held' result => post (held'.erase ⟨repo, id, exclusive⟩) result)
          (⟨repo, id, exclusive⟩ :: held) := by
  simp only [Ordered, withLock, ExceptT.run_mk, Prog.issue]
  show Prog.Ordered _ _ (Prog.bind _ _) ↔ _
  simp only [Prog.bind, Prog.Ordered]
  exact and_congr_right fun _ => Prog.ordered_bind _ _

end ServiceM

open ServiceM

section Programs

theorem BlobMediaService.store_ordered (cfg : MediaConfig) (media : Media) :
    (store cfg media).Ordered (fun held _ => held = []) [] := by
  simp only [store, gt_iff_lt, MediaMeta.asBlob_id, Media.meta_id, Media.asBlob_id,
    Bool.not_eq_eq_eq_not, Bool.not_true, addBackrefs, fetchBackrefs, storeBackrefs, ordered_ite,
    ordered_bind, ordered_withLock, lockRank, Nat.not_lt_zero, imp_false, List.erase_eq_nil,
    List.mem_cons, Nat.lt_one_iff, forall_eq_or_imp, true_and, ordered_repoStore, forall_const,
    ordered_pure, Bool.not_eq_false, ordered_repoFetch, forall_except, ordered_repoExists,
    Bool.forall_bool, Bool.false_eq_true, and_true, Bool.true_eq_false,
    reduceCtorEq, List.cons.injEq, and_false, or_self, List.erase_cons_head, false_or,
    and_self_right, ordered_throw, implies_true, not_lt, List.not_mem_nil, false_implies, not_false_eq_true,
    and_self]

theorem BlobMediaService.delete_ordered (caller : Caller) (mediaID : BlobID) :
    (delete caller mediaID).Ordered (fun held _ => held = []) [] := by
  simp only [delete, fetchMeta, ne_eq, pruneMedia, fetchBackrefs, Bool.not_eq_eq_eq_not,
    Bool.not_true, List.isEmpty_eq_true, List.filter_eq_nil_iff, bne_iff_ne, Decidable.not_not,
    storeBackrefs, ite_not, ordered_withLock, List.not_mem_nil, false_implies, lockRank, Nat.not_lt_zero, imp_self,
    implies_true, List.erase_eq_nil, ordered_bind, ordered_ite, Nat.lt_one_iff, ordered_pure,
    ordered_repoDelete, forall_except, forall_const, and_self_left, not_forall, Classical.not_imp,
    ordered_repoStore, forall_exists_index, and_imp, and_true,
    Bool.not_eq_false, ordered_repoFetch, ordered_repoExists, reduceCtorEq, List.cons.injEq,
    true_and, false_or, List.erase_cons_head, Bool.forall_bool, Bool.false_eq_true,
    Bool.true_eq_false, ordered_throw, ordered_mk_pure, List.mem_singleton, forall_eq,
    List.cons_ne_self, or_true, and_self]
  intro body
  split <;> trivial

theorem BlobMediaService.fetch_ordered (sha256 : Bytes → Bytes) (caller : Caller) (mediaID : BlobID) :
    (fetch sha256 caller mediaID).Ordered (fun held _ => held = []) [] := by
  simp only [fetch, ne_eq, ite_not, ordered_withLock, List.not_mem_nil, false_implies, lockRank, Nat.not_lt_zero,
    imp_self, implies_true, List.erase_eq_nil, ordered_bind, ordered_ite, Nat.lt_one_iff,
    ordered_pure, ordered_repoFetch, reduceCtorEq, List.cons.injEq, true_and, false_or,
    List.erase_cons_head, forall_except, forall_const, ordered_throw, ordered_mk_pure,
    List.mem_singleton, forall_eq, List.cons_ne_self, or_true, and_self]
  intro body
  split <;> trivial

theorem BlobImageService.store_ordered (cfg : MediaConfig) (image : Media) :
    (store cfg image).Ordered (fun held _ => held = []) [] := by
  unfold store
  split
  · rfl
  · exact BlobMediaService.store_ordered cfg image

/-- The cache lock is asked for once the media service call has released its locks. -/
theorem BlobImageService.delete_ordered (caller : Caller) (imageID : BlobID) :
    (delete caller imageID).Ordered (fun held _ => held = []) [] := by
  rw [delete, ordered_bind]
  refine (BlobMediaService.delete_ordered caller imageID).mono fun held result released => ?_
  subst released
  rcases result with _ | ⟨_ | _, dataID⟩ <;>
    simp only [ordered_withLock, List.not_mem_nil, false_implies, implies_true,
      List.erase_eq_nil, ordered_repoDeleteAll, List.cons_ne_self, or_true, and_self, ordered_pure,
      ordered_throw, Bool.false_eq_true, if_false, if_true]

theorem BlobImageService.fetch_ordered (codec : ImageCodec) (cfg : ImageConfig)
    (sha256 : Bytes → Bytes) (caller : Caller) (imageID : BlobID) (width : Int) :
    (fetch codec cfg sha256 caller imageID width).Ordered (fun held _ => held = []) [] := by
  rw [fetch, ordered_bind]
  refine (BlobMediaService.fetch_ordered sha256 caller imageID).mono fun held result released => ?_
  subst released
  rcases result with _ | image
  · rfl
  simp only [ordered_ite, ordered_pure, implies_true, ordered_withLock, List.not_mem_nil, false_implies,
    List.erase_eq_nil, ordered_bind, ordered_repoFetch, forall_except,
    forall_const, Bool.not_eq_true, ordered_repoStore, ordered_mk_pure, ordered_repoExists,
    List.cons_ne_self, or_true, and_self, true_and, forall_eq]
  intro _
  split <;> trivial

theorem ImageService.call_ordered (svc : ImageService) (call : ImageCall) :
    (svc.call call).Ordered (fun held _ => held = []) [] := by
  cases call with
  | store image =>
    refine (ordered_bind _ _).mpr ((BlobImageService.store_ordered svc.media image).mono ?_)
    rintro _ (_ | _) rfl <;> rfl
  | fetch caller imageID width =>
    refine (ordered_bind _ _).mpr ((BlobImageService.fetch_ordered _ _ _ _ _ _).mono ?_)
    rintro _ (_ | _) rfl <;> rfl
  | delete caller imageID =>
    refine (ordered_bind _ _).mpr ((BlobImageService.delete_ordered caller imageID).mono ?_)
    rintro _ (_ | _) rfl <;> rfl

end Programs

variable {post : List HeldLock → α → Prop} {free : RepoName → BlobID → Bool → Bool}
  {held : List HeldLock} {phase : StorePhase} {repos repos' : Repos} {task : Task α}

theorem Task.advance_ordered {op : RepoOp} {next : op.Response → Prog α}
    (ordered : (Prog.call op next).Ordered post held)
    (advanced : Task.advance free held phase repos op next = some (task, repos')) :
    task.prog.Ordered post task.held := by
  cases op <;> simp only [Task.advance] at advanced
  case lock =>
    split at advanced
    · cases advanced
      exact ordered.2
    · cases advanced
  case release =>
    cases advanced
    exact ordered
  case store =>
    split at advanced <;> cases advanced
    exacts [ordered, ordered, ordered _]
  all_goals
    cases advanced
    exact ordered _

theorem Task.request_above (ordered : task.prog.Ordered post task.held) {repo : RepoName}
    {id : BlobID} {exclusive : Bool} (request : task.request = some (repo, id, exclusive)) :
    ∀ h ∈ task.held, lockRank h.repo < lockRank repo := by
  obtain ⟨prog, held, phase⟩ := task
  simp only [Task.request] at request
  split at request
  · cases request
    exact ordered.1
  · cases request

namespace World

variable {w w' : World α} {i j k : Nat}

/-- Every task takes its further locks in rank order from those it holds. -/
def LockOrdered (w : World α) : Prop :=
  ∀ task ∈ w.tasks, task.prog.Ordered (fun _ _ => True) task.held

theorem LockOrdered.step (ordered : w.LockOrdered) (stepped : w.step i = some w') :
    w'.LockOrdered := by
  obtain ⟨op, next, held, phase, task, found, advanced, tasks⟩ := step_some stepped
  intro t member
  rw [tasks] at member
  rcases List.mem_or_eq_of_mem_set member with old | rfl
  · exact ordered t old
  · exact Task.advance_ordered (ordered _ (List.getElem?_mem found)) advanced

theorem LockOrdered.run {schedule : List Nat} (ordered : w.LockOrdered)
    (ran : w.run schedule = some w') : w'.LockOrdered := by
  induction schedule generalizing w with
  | nil =>
    cases ran
    exact ordered
  | cons i schedule ih =>
    obtain ⟨mid, stepped, rest⟩ := Option.bind_eq_some.mp ran
    exact ih (ordered.step stepped) rest

def requestRank (w : World α) (i : Nat) : Nat :=
  match w.tasks[i]?.bind Task.request with
  | some (repo, _, _) => lockRank repo
  | none => 0

/-- Along a wait-for edge to a task that waits in its turn, the rank asked for rises. -/
theorem LockOrdered.rank_lt (ordered : w.LockOrdered) (waits : w.WaitsFor i j)
    (waiting : w.WaitsFor j k) : w.requestRank i < w.requestRank j := by
  obtain ⟨-, ti, tj, repo, id, exclusive, found, request, holder, held, member, blocks⟩ := waits
  obtain ⟨-, tj', tk, repo', id', exclusive', holder', request', -⟩ := waiting
  obtain rfl : tj' = tj := Option.some.inj (holder'.symm.trans holder)
  have above := Task.request_above (ordered _ (List.getElem?_mem holder)) request' held member
  simp only [HeldLock.blocks, Bool.and_eq_true, decide_eq_true_eq] at blocks
  simp only [requestRank, found, holder, Option.some_bind, request, request']
  rwa [← blocks.1.1]

theorem LockOrdered.rank_lt_of_path (ordered : w.LockOrdered)
    (path : Relation.TransGen w.WaitsFor i j) (waiting : w.WaitsFor j k) :
    w.requestRank i < w.requestRank j := by
  induction path generalizing k with
  | single waits => exact ordered.rank_lt waits waiting
  | tail _ waits ih => exact (ih waits).trans (ordered.rank_lt waits waiting)

theorem LockOrdered.acyclic (ordered : w.LockOrdered) : w.Acyclic := fun i cycle => by
  obtain ⟨j, first, -⟩ := Relation.TransGen.head'_iff.mp cycle
  exact lt_irrefl _ (ordered.rank_lt_of_path cycle first)

/-- The task of a set that asks for the highest rank waits for a task that asks for a higher
one, so not every task of the set can wait for another of it. -/
theorem LockOrdered.deadlockFree (ordered : w.LockOrdered) : w.DeadlockFree := by
  intro tasks nonempty waiting
  obtain ⟨i, top⟩ :=
    Option.ne_none_iff_exists'.mp (mt (List.argmax_eq_none (f := w.requestRank)).mp nonempty)
  obtain ⟨j, member, waits⟩ := waiting i (List.argmax_mem top)
  obtain ⟨k, -, next⟩ := waiting j member
  exact absurd (List.le_of_mem_argmax member top) (not_le.mpr (ordered.rank_lt waits next))

theorem lockOrdered_start (repos : Repos) (progs : List (Prog α))
    (ordered : ∀ prog ∈ progs, prog.Ordered (fun held _ => held = []) []) :
    (start repos progs).LockOrdered := by
  simp only [LockOrdered, start, List.mem_map]
  rintro _ ⟨prog, member, rfl⟩
  exact (ordered prog member).mono fun _ _ _ => trivial

end World

/-- However many image service calls run side by side, under every schedule, no set of them
each waits for a lock another of the set holds. -/
theorem image_calls_acyclic (svc : ImageService) (repos : Repos) (calls : List ImageCall)
    {w : World (Except ServiceError ImageResult)}
    (reached : (World.start repos (calls.map fun call => (svc.call call).run)).Reachable w) :
    w.Acyclic ∧ w.DeadlockFree := by
  obtain ⟨schedule, ran⟩ := reached
  have ordered := World.LockOrdered.run (World.lockOrdered_start _ _ ?_) ran
  · exact ⟨ordered.acyclic, ordered.deadlockFree⟩
  simp only [List.mem_map]
  rintro _ ⟨call, -, rfl⟩
  exact svc.call_ordered call

/-- Two uploads of one content: once the first holds its meta and data locks and the second
its meta lock, the second waits for the data lock, and no set of calls is deadlocked. -/
theorem image_calls_acyclic_shared_content :
    ((World.start Repos.empty ([ImageCall.store (newMedia id [0xFF, 0xD8]
        ⟨ascii "a.jpg", [], [], 0, ascii "alice", ascii "image/jpeg"⟩),
      ImageCall.store (newMedia id [0xFF, 0xD8]
        ⟨ascii "b.jpg", [], [], 0, ascii "alice", ascii "image/jpeg"⟩)].map fun call =>
      (ImageService.call ⟨MediaConfig.default, ImageConfig.default,
        ⟨fun _ data => .ok data, fun _ _ pixels => pixels, fun _ pixels => .ok pixels⟩, id⟩
        call).run)).run [0, 0, 1]).elim False
      fun w => w.step 1 = none ∧ w.Acyclic ∧ w.DeadlockFree := by
  generalize ran : World.run _ _ = result
  cases result with
  | none => cases ran
  | some w => exact ⟨by cases ran; rfl, image_calls_acyclic _ _ _ ⟨_, ran⟩⟩

end Homecase
