import Homecase.Media.Index

namespace Homecase

/-! # Failures of repository calls

`Prog.runFaulty` runs a program as `Prog.run` does, except that every `Exists`, `Store`, `Fetch`
and `Delete` takes the next entry of a fault plan and fails when the entry is true: `Exists`
answers false (`blobExists` is `err == nil` of an `os.Stat`), and the others return an error and
change nothing. An empty plan fails nothing (`Prog.runFaulty_nil`).

`Store` writes the content, then the metadata, then appends to the backreference list, and
skips the last two when the metadata blob is there. A failure of the append leaves the metadata
behind, so the next `Store` of the same media, with nothing failing, appends nothing: the media
is stored with no backreference (`store_retry_skips_backref`).

`Delete` removes the content and the backreference blob before the metadata. When the second
removal fails, the content is gone while the metadata and its backreference stay, and a later
`Delete` with nothing failing stops at the missing content with not-found before it reaches the
metadata (`delete_retry_keeps_meta`).
-/

open BlobMediaService ServiceM

/-- What a call that fails answers, for the calls that can fail. -/
def RepoOp.fail : (op : RepoOp) → Option op.Response
  | .exists .. => some false
  | .store .. => some (.error .io)
  | .fetch .. => some (.error .io)
  | .delete .. => some (.error .io)
  | _ => none

/-- One call under a fault plan: a call that can fail takes the plan's next entry. -/
def RepoOp.applyFaulty (op : RepoOp) (plan : List Bool) (repos : Repos) :
    op.Response × List Bool × Repos :=
  match op.fail, plan with
  | some failed, true :: plan => (failed, plan, repos)
  | some _, false :: plan => ((op.apply repos).1, plan, (op.apply repos).2)
  | _, plan => ((op.apply repos).1, plan, (op.apply repos).2)

/-- A program run to the end under a fault plan, with what is left of the plan. -/
def Prog.runFaulty : Prog α → List Bool → Repos → α × List Bool × Repos
  | .pure value, plan, repos => (value, plan, repos)
  | .call op next, plan, repos =>
    (next (op.applyFaulty plan repos).1).runFaulty (op.applyFaulty plan repos).2.1
      (op.applyFaulty plan repos).2.2

def ServiceM.execFaulty (action : ServiceM α) (plan : List Bool) (repos : Repos) :
    Except ServiceError α × List Bool × Repos :=
  action.run.runFaulty plan repos

theorem RepoOp.applyFaulty_nil (op : RepoOp) (repos : Repos) :
    op.applyFaulty [] repos = ((op.apply repos).1, [], (op.apply repos).2) := by
  unfold applyFaulty
  split <;> simp_all

theorem Prog.runFaulty_nil (x : Prog α) (repos : Repos) :
    x.runFaulty [] repos = ((x.run repos).1, [], (x.run repos).2) := by
  induction x generalizing repos with
  | pure value => rfl
  | call op next ih => simp only [runFaulty, run, RepoOp.applyFaulty_nil, ih]

theorem Prog.runFaulty_bind (x : Prog α) (f : α → Prog β) (plan : List Bool) (repos : Repos) :
    (x >>= f).runFaulty plan repos =
      (f (x.runFaulty plan repos).1).runFaulty (x.runFaulty plan repos).2.1
        (x.runFaulty plan repos).2.2 := by
  induction x generalizing plan repos with
  | pure value => rfl
  | call op next ih => exact ih _ _ _

namespace ServiceM

theorem execFaulty_nil (action : ServiceM α) (repos : Repos) :
    action.execFaulty [] repos = ((action.exec repos).1, [], (action.exec repos).2) :=
  Prog.runFaulty_nil _ _

theorem execFaulty_bind (x : ServiceM α) (f : α → ServiceM β) (plan : List Bool) (repos : Repos) :
    (x >>= f).execFaulty plan repos =
      match x.execFaulty plan repos with
      | (.ok value, plan, after) => (f value).execFaulty plan after
      | (.error err, plan, after) => (.error err, plan, after) := by
  simp only [execFaulty, ExceptT.run_bind, Prog.runFaulty_bind]
  rcases x.run.runFaulty plan repos with ⟨_ | _, _, _⟩ <;> rfl

@[simp] theorem execFaulty_pure (value : α) (plan : List Bool) (repos : Repos) :
    (Pure.pure value : ServiceM α).execFaulty plan repos = (.ok value, plan, repos) := rfl

@[simp] theorem execFaulty_throw (err : ServiceError) (plan : List Bool) (repos : Repos) :
    (throw err : ServiceM α).execFaulty plan repos = (.error err, plan, repos) := rfl

@[simp] theorem execFaulty_mk_pure (result : Except ServiceError α) (plan : List Bool) (repos : Repos) :
    ServiceM.execFaulty (ExceptT.mk (Pure.pure result)) plan repos = (result, plan, repos) := rfl

@[simp] theorem execFaulty_repoExists (repo : RepoName) (id : BlobID) (failed : Bool)
    (plan : List Bool) (repos : Repos) :
    (repoExists repo id).execFaulty (failed :: plan) repos =
      (.ok (!failed && (repos.get repo id).isSome), plan, repos) := by
  cases failed <;> rfl

@[simp] theorem execFaulty_repoStore (repo : RepoName) (blob : Blob) (failed : Bool)
    (plan : List Bool) (repos : Repos) :
    (repoStore repo blob).execFaulty (failed :: plan) repos =
      if failed then (.error .io, plan, repos)
      else (.ok (), plan, repos.set repo ((repos.get repo).insert blob.id blob.body)) := by
  cases failed <;> rfl

@[simp] theorem execFaulty_repoFetch (repo : RepoName) (id : BlobID) (failed : Bool)
    (plan : List Bool) (repos : Repos) :
    (repoFetch repo id).execFaulty (failed :: plan) repos =
      if failed then (.error .io, plan, repos)
      else (((repoFetch repo id).exec repos).1, plan, ((repoFetch repo id).exec repos).2) := by
  cases failed <;> rfl

@[simp] theorem execFaulty_repoDelete (repo : RepoName) (id : BlobID) (failed : Bool)
    (plan : List Bool) (repos : Repos) :
    (repoDelete repo id).execFaulty (failed :: plan) repos =
      if failed then (.error .io, plan, repos)
      else (((repoDelete repo id).exec repos).1, plan, ((repoDelete repo id).exec repos).2) := by
  cases failed <;> rfl

@[simp] theorem execFaulty_withLock (repo : RepoName) (id : BlobID) (exclusive : Bool)
    (body : ServiceM α) (plan : List Bool) (repos : Repos) :
    (withLock repo id exclusive body).execFaulty plan repos = body.execFaulty plan repos := by
  simp only [execFaulty, withLock, ExceptT.run_mk, Prog.issue]
  show Prog.runFaulty (Prog.bind _ _) plan repos = _
  simp only [Prog.bind, Prog.runFaulty, RepoOp.applyFaulty, RepoOp.fail, RepoOp.apply]
  show ((body.run >>= fun result => Prog.call (.release repo id exclusive) Prog.pure >>=
    fun _ => Pure.pure result).runFaulty plan repos) = _
  rw [Prog.runFaulty_bind]
  rfl

end ServiceM

/-- A `Store` whose backreference append fails (the sixth call that can fail), then the same
`Store` with nothing failing: the retry succeeds and changes nothing, so the content and the
metadata are there and the backreference list of the content does not name the media. -/
theorem store_retry_skips_backref (cfg : MediaConfig) (media : Media)
    (fits : ¬ media.size > cfg.maxSize) :
    let failed := (store cfg media).execFaulty [false, false, false, false, false, true] Repos.empty
    failed.1 = .error .io ∧ (store cfg media).exec failed.2.2 = (.ok (), failed.2.2) ∧
      (failed.2.2.data media.hash).isSome ∧ (failed.2.2.meta media.id).isSome ∧
      (backrefLines (failed.2.2.backref media.hash)).count media.id = 0 := by
  have failed : (store cfg media).execFaulty [false, false, false, false, false, true] Repos.empty =
      (.error .io, [], { Repos.empty with
        data := BlobMap.empty.insert media.hash media.data
        meta := BlobMap.empty.insert media.id media.meta.toJson }) := by
    simp [store, fits, execFaulty_bind, addBackrefs, fetchBackrefs, storeBackrefs, Repos.get,
      Repos.set, Repos.empty, BlobMap.empty]
  simp only [failed]
  refine ⟨trivial, exec_store_present cfg media _ fits
    (show _ = some media.meta.toJson by simp) (by simp), by simp, by simp, rfl⟩

theorem store_retry_skips_backref_png :
    ¬ (newMedia id [0x89, 0x50, 0x4E, 0x47] ⟨ascii "a.png", [], [], 0, ascii "alice",
        ascii "image/png"⟩).size > MediaConfig.default.maxSize ∧
      let media := newMedia id [0x89, 0x50, 0x4E, 0x47]
        ⟨ascii "a.png", [], [], 0, ascii "alice", ascii "image/png"⟩
      let failed := (store .default media).execFaulty [false, false, false, false, false, true]
        Repos.empty
      failed.1 = .error .io ∧ (store .default media).exec failed.2.2 = (.ok (), failed.2.2) ∧
        (failed.2.2.data media.hash).isSome ∧ (failed.2.2.meta media.id).isSome ∧
        (backrefLines (failed.2.2.backref media.hash)).count media.id = 0 :=
  have fits : ¬ (newMedia id [0x89, 0x50, 0x4E, 0x47] ⟨ascii "a.png", [], [], 0, ascii "alice",
      ascii "image/png"⟩).size > MediaConfig.default.maxSize := by
    simp [Media.size, newMedia, MediaConfig.default]
  ⟨fits, store_retry_skips_backref _ _ fits⟩

/-- A `Store`, then a `Delete` by the owner whose removal of the backreference blob fails (the
fifth call that can fail): the content is gone, the metadata and the backreference list are left.
A `Delete` of the same media with nothing failing then stops at the missing content blob and
keeps the metadata, which the backreference list still names. -/
theorem delete_retry_keeps_meta (cfg : MediaConfig) (sha256 : Bytes → Bytes) (media : Media)
    (built : media.Built sha256) (fits : ¬ media.size > cfg.maxSize) :
    let stored := ((store cfg media).exec Repos.empty).2
    let owner : Caller := some media.meta.sanitize.owner
    let failed := (delete owner media.id).execFaulty [false, false, false, false, true] stored
    stored.meta media.id = some media.meta.toJson ∧ failed.1 = .error .io ∧
      failed.2.2.data media.hash = none ∧
      (delete owner media.id).exec failed.2.2 = (.error .notFound, failed.2.2) ∧
      (failed.2.2.meta media.id).isSome ∧ media.id ∈ backrefLines (failed.2.2.backref media.hash) := by
  obtain ⟨hash, id⟩ := built.plain.sanitize
  have newline : (0x0A : Byte) ∉ media.id := fun member =>
    (crockfordLowercase_plain _ (built.plain.1 _ member)).2 rfl
  have lines : (backrefBody [media.id]).splitOn 0x0A = [media.id] :=
    @backrefLines_backrefOf [media.id] (by simpa using newline)
  have failed : (delete (some media.meta.sanitize.owner) media.id).execFaulty
      [false, false, false, false, true] (storeNew media Repos.empty) =
      (.error .io, [], { storeNew media Repos.empty with
        data := (storeNew media Repos.empty).data.erase media.hash }) := by
    simp only [delete, fetchMeta, pruneMedia, fetchBackrefs, storeNew, Repos.empty, BlobMap.empty,
      execFaulty_withLock, execFaulty_bind, execFaulty_repoFetch, execFaulty_mk_pure, execFaulty_pure,
      execFaulty_repoExists, execFaulty_repoDelete, exec_repoFetch_of_some, exec_repoDelete_of_isSome,
      Repos.get, Repos.set, BlobMap.insert_apply, newMediaMetaFromBlob_toJson, hash, id, lines,
      backrefLines, List.mem_singleton, List.filter_eq_nil_iff, List.isEmpty_eq_true, bne_iff_ne,
      Decidable.not_not, ite_not, ne_eq, Option.some.injEq, Option.isSome_none, Option.isSome_some,
      Bool.not_eq_eq_eq_not, Bool.not_true, Bool.not_false, Bool.and_self, Bool.false_eq_true,
      Bool.true_eq_false, List.nil_append, imp_self, implies_true, ↓reduceIte]
  have stored : (store cfg media).exec Repos.empty = (.ok (), storeNew media Repos.empty) :=
    exec_store_new cfg media _ fits rfl
  simp only [stored, failed]
  refine ⟨by simp [storeNew], trivial, by simp [storeNew], ?retry, by simp [storeNew],
    by simp [storeNew, Repos.empty, BlobMap.empty, backrefLines, lines]⟩
  simp only [delete, fetchMeta, pruneMedia, storeNew, Repos.empty, BlobMap.empty, exec_withLock,
    exec_bind, exec_mk_pure, exec_pure, exec_fetchBackrefs, exec_repoFetch_of_some,
    exec_repoDelete_of_none, Repos.get, BlobMap.insert_apply, BlobMap.erase_apply,
    newMediaMetaFromBlob_toJson, hash, id, lines, backrefLines, List.mem_singleton,
    List.filter_eq_nil_iff, List.isEmpty_eq_true, bne_iff_ne, Decidable.not_not, ite_not, ne_eq,
    Option.some.injEq, Option.isSome_none, Bool.false_eq_true, List.nil_append, imp_self, implies_true,
    ↓reduceIte]

theorem delete_retry_keeps_meta_png :
    let media := newMedia id [0x89, 0x50, 0x4E, 0x47]
      ⟨ascii "a.png", [], [], 0, ascii "alice", ascii "image/png"⟩
    media.Built id ∧ ¬ media.size > MediaConfig.default.maxSize ∧
      let stored := ((store .default media).exec Repos.empty).2
      let owner : Caller := some media.meta.sanitize.owner
      let failed := (delete owner media.id).execFaulty [false, false, false, false, true] stored
      stored.meta media.id = some media.meta.toJson ∧ failed.1 = .error .io ∧
        failed.2.2.data media.hash = none ∧
        (delete owner media.id).exec failed.2.2 = (.error .notFound, failed.2.2) ∧
        (failed.2.2.meta media.id).isSome ∧
        media.id ∈ backrefLines (failed.2.2.backref media.hash) :=
  have fits : ¬ (newMedia id [0x89, 0x50, 0x4E, 0x47] ⟨ascii "a.png", [], [], 0, ascii "alice",
      ascii "image/png"⟩).size > MediaConfig.default.maxSize := by
    simp [Media.size, newMedia, MediaConfig.default]
  ⟨.newMedia _ _, fits, delete_retry_keeps_meta _ _ _ (.newMedia _ _) fits⟩

end Homecase
