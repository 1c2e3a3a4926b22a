import Homecase.Domain.Media

namespace Homecase

/-! # Programs over blob repositories

The services talk to storage only through the `blob.Repository` interface. A service operation
is modelled as a `Prog`, a tree of repository calls in which each call's answer picks the rest
of the computation: the free monad over `RepoOp`. The same programs are run three ways: one call
after another on finite maps (`Prog.run`, below), with an injected failure (`Homecase.Media.Failure`),
and interleaved with other programs under the locking contract (`Homecase.Service.Concurrent`).
-/

/-- The repositories the services open, by `(subdir, ext)`: `data/bin` for content, `data/txt`
for backreference lists, `meta/json` for metadata and `cache/bin` for resized images. -/
inductive RepoName where
  | data
  | backref
  | meta
  | cache
  deriving DecidableEq, Repr

/-- One call on a `blob.Repository`, or of the release function its `Lock` returned. -/
inductive RepoOp where
  | lock (repo : RepoName) (id : BlobID) (exclusive : Bool)
  | release (repo : RepoName) (id : BlobID) (exclusive : Bool)
  | exists (repo : RepoName) (id : BlobID)
  | store (repo : RepoName) (blob : Blob)
  | fetch (repo : RepoName) (id : BlobID)
  | delete (repo : RepoName) (id : BlobID)
  | deleteAll (repo : RepoName) (id : BlobID) (pattern : Bytes)
  deriving DecidableEq, Repr

/-- What a call answers: `Exists` a boolean, `Fetch` the body or an error, release nothing, and
the other calls success or an error. -/
def RepoOp.Response : RepoOp → Type
  | .exists .. => Bool
  | .fetch .. => Except ServiceError Bytes
  | .release .. => Unit
  | _ => Except ServiceError Unit

/-- A computation over the repositories: a result, or a call and what to do with its answer. -/
inductive Prog (α : Type) where
  | pure (value : α)
  | call (op : RepoOp) (next : op.Response → Prog α)

namespace Prog

def bind : Prog α → (α → Prog β) → Prog β
  | .pure value, f => f value
  | .call op next, f => .call op fun response => (next response).bind f

instance : Monad Prog where
  pure := .pure
  bind := Prog.bind

def issue (op : RepoOp) : Prog op.Response := .call op .pure

end Prog

/-- Service code: repository calls that may return a Go `error`. -/
abbrev ServiceM := ExceptT ServiceError Prog

namespace ServiceM

def repoExists (repo : RepoName) (id : BlobID) : ServiceM Bool :=
  ExceptT.lift (Prog.issue (.exists repo id))

def repoStore (repo : RepoName) (blob : Blob) : ServiceM Unit := ExceptT.mk (Prog.issue (.store repo blob))

def repoFetch (repo : RepoName) (id : BlobID) : ServiceM Bytes := ExceptT.mk (Prog.issue (.fetch repo id))

def repoDelete (repo : RepoName) (id : BlobID) : ServiceM Unit := ExceptT.mk (Prog.issue (.delete repo id))

def repoDeleteAll (repo : RepoName) (id : BlobID) (pattern : Bytes) : ServiceM Unit :=
  ExceptT.mk (Prog.issue (.deleteAll repo id pattern))

/-- `unlock, err := repo.Lock(ctx, id, exclusive); if err != nil { return ... }; defer unlock()`
around the rest of a function: the lock is released on every path out of `body`. -/
def withLock (repo : RepoName) (id : BlobID) (exclusive : Bool) (body : ServiceM α) : ServiceM α :=
  ExceptT.mk do
    match ← Prog.issue (.lock repo id exclusive) with
    | .error err => pure (.error err)
    | .ok () =>
      let result ← body.run
      Prog.issue (.release repo id exclusive)
      pure result

end ServiceM

/-- The bodies held by one repository, by blob id. -/
abbrev BlobMap := BlobID → Option Bytes

namespace BlobMap

def empty : BlobMap := fun _ => none

def insert (blobs : BlobMap) (id : BlobID) (body : Bytes) : BlobMap :=
  fun other => if other = id then some body else blobs other

def erase (blobs : BlobMap) (id : BlobID) : BlobMap :=
  fun other => if other = id then none else blobs other

@[simp] theorem insert_apply (blobs : BlobMap) (id other : BlobID) (body : Bytes) :
    blobs.insert id body other = if other = id then some body else blobs other := rfl

@[simp] theorem erase_apply (blobs : BlobMap) (id other : BlobID) :
    blobs.erase id other = if other = id then none else blobs other := rfl

end BlobMap

/-- `filepath.Match` on blob ids, for at most `fuel` steps: `*` stands for any run of bytes
other than `/`, `?` for one such byte, and every other byte for itself. -/
def globMatchFuel : Nat → Bytes → Bytes → Bool
  | 0, _, _ => false
  | _ + 1, [], name => name.isEmpty
  | fuel + 1, p :: pattern, name =>
    if p.val = 0x2A then
      globMatchFuel fuel pattern name ||
        match name with
        | c :: rest => c.val != 0x2F && globMatchFuel fuel (p :: pattern) rest
        | [] => false
    else
      match name with
      | c :: rest =>
        (p == c || (p.val == 0x3F && c.val != 0x2F)) && globMatchFuel fuel pattern rest
      | [] => false

/-- `filepath.Match`: every step shortens the pattern or the name. -/
def globMatch (pattern name : Bytes) : Bool :=
  globMatchFuel (pattern.length + name.length + 1) pattern name

/-- The four repositories of a running image service, as finite maps. -/
structure Repos where
  data : BlobMap
  backref : BlobMap
  meta : BlobMap
  cache : BlobMap

namespace Repos

def empty : Repos := ⟨BlobMap.empty, BlobMap.empty, BlobMap.empty, BlobMap.empty⟩

def get (repos : Repos) : RepoName → BlobMap
  | .data => repos.data
  | .backref => repos.backref
  | .meta => repos.meta
  | .cache => repos.cache

def set (repos : Repos) : RepoName → BlobMap → Repos
  | .data, blobs => { repos with data := blobs }
  | .backref, blobs => { repos with backref := blobs }
  | .meta, blobs => { repos with meta := blobs }
  | .cache, blobs => { repos with cache := blobs }

@[simp] theorem get_set (repos : Repos) (repo other : RepoName) (blobs : BlobMap) :
    (repos.set repo blobs).get other = if other = repo then blobs else repos.get other := by
  cases repo <;> cases other <;> rfl

end Repos

/-- One repository call on storage that never fails, the `blob.Repository` contract: locks are
granted at once, `Store` overwrites, `Fetch` and `Delete` of an absent id answer not-found, and
`DeleteAll` removes every blob whose id matches `id ++ pattern`. -/
def RepoOp.apply : (op : RepoOp) → Repos → op.Response × Repos
  | .lock .., repos => (.ok (), repos)
  | .release .., repos => ((), repos)
  | .exists repo id, repos => ((repos.get repo id).isSome, repos)
  | .store repo blob, repos => (.ok (), repos.set repo ((repos.get repo).insert blob.id blob.body))
  | .fetch repo id, repos =>
    match repos.get repo id with
    | some body => (.ok body, repos)
    | none => (.error .notFound, repos)
  | .delete repo id, repos =>
    match repos.get repo id with
    | some _ => (.ok (), repos.set repo ((repos.get repo).erase id))
    | none => (.error .notFound, repos)
  | .deleteAll repo id pattern, repos =>
    (.ok (), repos.set repo fun other => if globMatch (id ++ pattern) other then none else repos.get repo other)

def Prog.run : Prog α → Repos → α × Repos
  | .pure value, repos => (value, repos)
  | .call op next, repos => (next (op.apply repos).1).run (op.apply repos).2

def ServiceM.exec (action : ServiceM α) (repos : Repos) : Except ServiceError α × Repos :=
  action.run.run repos


@[simp] theorem Prog.run_pure (value : α) (repos : Repos) :
    (Pure.pure value : Prog α).run repos = (value, repos) := rfl

theorem Prog.run_bind (x : Prog α) (f : α → Prog β) (repos : Repos) :
    (x >>= f).run repos = (f (x.run repos).1).run (x.run repos).2 := by
  induction x generalizing repos with
  | pure value => rfl
  | call op next ih => exact ih _ _

namespace ServiceM

@[simp] theorem exec_pure (value : α) (repos : Repos) :
    (Pure.pure value : ServiceM α).exec repos = (.ok value, repos) := rfl

@[simp] theorem exec_throw (err : ServiceError) (repos : Repos) :
    (throw err : ServiceM α).exec repos = (.error err, repos) := rfl

@[simp] theorem exec_mk_pure (result : Except ServiceError α) (repos : Repos) :
    ServiceM.exec (ExceptT.mk (Pure.pure result)) repos = (result, repos) := rfl

theorem exec_bind (x : ServiceM α) (f : α → ServiceM β) (repos : Repos) :
    (x >>= f).exec repos =
      match x.exec repos with
      | (.ok value, after) => (f value).exec after
      | (.error err, after) => (.error err, after) := by
  simp only [exec, ExceptT.run_bind, Prog.run_bind]
  rcases x.run.run repos with ⟨_ | _, _⟩ <;> rfl

@[simp] theorem exec_repoExists (repo : RepoName) (id : BlobID) (repos : Repos) :
    (repoExists repo id).exec repos = (.ok (repos.get repo id).isSome, repos) := rfl

@[simp] theorem exec_repoStore (repo : RepoName) (blob : Blob) (repos : Repos) :
    (repoStore repo blob).exec repos =
      (.ok (), repos.set repo ((repos.get repo).insert blob.id blob.body)) := rfl

theorem exec_repoFetch_of_some (repo : RepoName) {id : BlobID} {repos : Repos} {body : Bytes}
    (found : repos.get repo id = some body) : (repoFetch repo id).exec repos = (.ok body, repos) := by
  simp [exec, repoFetch, Prog.issue, Prog.run, RepoOp.apply, found]

theorem exec_repoFetch_of_none (repo : RepoName) {id : BlobID} {repos : Repos}
    (absent : repos.get repo id = none) :
    (repoFetch repo id).exec repos = (.error .notFound, repos) := by
  simp [exec, repoFetch, Prog.issue, Prog.run, RepoOp.apply, absent]

theorem exec_repoDelete_of_isSome (repo : RepoName) {id : BlobID} {repos : Repos}
    (found : (repos.get repo id).isSome) :
    (repoDelete repo id).exec repos = (.ok (), repos.set repo ((repos.get repo).erase id)) := by
  obtain ⟨body, found⟩ := Option.isSome_iff_exists.mp found
  simp [exec, repoDelete, Prog.issue, Prog.run, RepoOp.apply, found]

theorem exec_repoDelete_of_none (repo : RepoName) {id : BlobID} {repos : Repos}
    (absent : repos.get repo id = none) :
    (repoDelete repo id).exec repos = (.error .notFound, repos) := by
  simp [exec, repoDelete, Prog.issue, Prog.run, RepoOp.apply, absent]

@[simp] theorem exec_withLock (repo : RepoName) (id : BlobID) (exclusive : Bool) (body : ServiceM α)
    (repos : Repos) : (withLock repo id exclusive body).exec repos = body.exec repos := by
  simp only [exec, withLock, ExceptT.run_mk, Prog.issue]
  show Prog.run (Prog.bind _ _) repos = _
  simp only [Prog.bind, Prog.run, RepoOp.apply]
  show ((body.run >>= fun result => Prog.call (.release repo id exclusive) Prog.pure >>= fun _ => Pure.pure result).run repos) = _
  rw [Prog.run_bind]
  rfl

end ServiceM

end Homecase
