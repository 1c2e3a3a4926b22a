import Homecase.Repo.FileSystem
import Homecase.Media.Contract
import Homecase.Media.Sections

namespace Homecase

/-! # The media service on the filesystem

`NewBlobMediaService` opens its three repositories through `FileSystemBlobRepositoryFactory`
under one base directory: `data/bin` for content, `data/txt` for backreference lists and
`meta/json` for metadata. A blob is the file `getFilename` names, and `Lock` creates the file's
lock file, which its release removes.

`getBasename` strips `/` from an id and pads a short one, so an id that is not ordinary can name
the file of another id: `Fetch` of `"/" ++ m.ID()` reads the metadata of `m`. On ordinary ids
the files hold what the maps of `Repos` hold (`FilesAbstract`): the three repositories and the
lock files never share a path, and a program whose calls are all on ordinary ids answers on the
files as on the maps (`FilesAbstract.run`). The ids and hashes of stored media encode 32-byte
digests, so they are ordinary, and every metadata blob names such a hash (`MetaOrdinary`). A run
of `Store`, `Fetch` and `Delete` calls whose `Fetch` and `Delete` ids are ordinary therefore
answers on the files as the contract's store does (`filesystem_service_refines_contract`).

Storage never fails here: no full disk, and no `ENAMETOOLONG` for a name over 255 bytes.
`DeleteAll` walks a directory tree (`deleteBlobPattern`) and has no answer on `Files`; the media
service never calls it.
-/

open BlobMediaService ServiceM

/-- The repositories `FileSystemBlobRepositoryFactory` opens under `basedir`, by name. -/
def blobRepository (basedir : Bytes) : RepoName → FileSystemRepository
  | .data => ⟨basedir, ascii "data", ascii "bin"⟩
  | .backref => ⟨basedir, ascii "data", ascii "txt"⟩
  | .meta => ⟨basedir, ascii "meta", ascii "json"⟩
  | .cache => ⟨basedir, ascii "cache", ascii "bin"⟩

/-- The lock file `flock` opens for a blob: its file name with `.lock` appended. -/
def FileSystemRepository.lockfile (repo : FileSystemRepository) (id : BlobID) : Bytes :=
  repo.getFilename id ++ ascii ".lock"

/-- One repository call on the files under `basedir`. `Lock` creates the lock file
(`os.OpenFile` with `O_CREATE`) and its release removes it. -/
def RepoOp.onFiles (basedir : Bytes) : (op : RepoOp) → Files → Option (op.Response × Files)
  | .lock repo id _, files =>
    some (.ok (), fun path =>
      if path = (blobRepository basedir repo).lockfile id then some ((files path).getD []) else files path)
  | .release repo id _, files =>
    some ((), fun path => if path = (blobRepository basedir repo).lockfile id then none else files path)
  | .exists repo id, files => some ((blobRepository basedir repo).blobExists files id, files)
  | .store repo blob, files => some (.ok (), (blobRepository basedir repo).storeBlob files blob)
  | .fetch repo id, files => some ((blobRepository basedir repo).fetchBlob files id, files)
  | .delete repo id, files => some ((blobRepository basedir repo).deleteBlob files id)
  | .deleteAll .., _ => none

def Prog.runFiles (basedir : Bytes) : Prog α → Files → Option (α × Files)
  | .pure value, files => some (value, files)
  | .call op next, files =>
    match op.onFiles basedir files with
    | some (response, after) => (next response).runFiles basedir after
    | none => none

def MediaCall.execFiles (cfg : MediaConfig) (sha256 : Bytes → Bytes) (basedir : Bytes) :
    MediaCall → Files → Option (MediaResult × Files)
  | .store media, files =>
    ((BlobMediaService.store cfg media).run.runFiles basedir files).map (Prod.map .stored id)
  | .fetch caller mediaID, files =>
    ((BlobMediaService.fetch sha256 caller mediaID).run.runFiles basedir files).map (Prod.map .fetched id)
  | .delete caller mediaID, files =>
    ((BlobMediaService.delete caller mediaID).run.runFiles basedir files).map (Prod.map .deleted id)

/-- The files under `basedir` hold, at the file of each ordinary id, what the media service's
three repositories hold under it. -/
def FilesAbstract (basedir : Bytes) (files : Files) (repos : Repos) : Prop :=
  ∀ repo, repo ≠ .cache → (blobRepository basedir repo).Abstracts files (repos.get repo)

/-- A call on an ordinary id of one of the media service's three repositories. -/
def RepoOp.OnOrdinary : RepoOp → Prop
  | .lock repo id _ | .release repo id _ | .exists repo id | .fetch repo id | .delete repo id =>
    repo ≠ .cache ∧ OrdinaryBlobID id
  | .store repo blob => repo ≠ .cache ∧ OrdinaryBlobID blob.id
  | .deleteAll .. => False

/-- Every call the program makes on its run from `repos` is on an ordinary id of one of the three
repositories. -/
def Prog.OrdinaryRun : Prog α → Repos → Prop
  | .pure _, _ => True
  | .call op next, repos => op.OnOrdinary ∧ (next (op.apply repos).1).OrdinaryRun (op.apply repos).2

def MediaCall.OrdinaryID : MediaCall → Prop
  | .store _ => True
  | .fetch _ mediaID | .delete _ mediaID => OrdinaryBlobID mediaID

/-- Every metadata blob decodes, if it decodes at all, to metadata whose hash is an ordinary id. -/
def MetaOrdinary (repos : Repos) : Prop :=
  ∀ id body meta, repos.meta id = some body → newMediaMetaFromBlob body = .ok meta → OrdinaryBlobID meta.hash

/-- A call that stores no metadata blob, or one that decodes, if at all, to an ordinary hash. -/
def RepoOp.KeepsMetaOrdinary : RepoOp → Prop
  | .store .meta blob => ∀ meta, newMediaMetaFromBlob blob.body = .ok meta → OrdinaryBlobID meta.hash
  | _ => True

section Paths

variable {basedir : Bytes}

theorem getFilename_reverse_take {repo : FileSystemRepository} {id : BlobID} (ordinary : OrdinaryBlobID id)
    {n : Nat} (short : n ≤ repo.ext.length) : (repo.getFilename id).reverse.take n = repo.ext.reverse.take n := by
  obtain ⟨dir, file, -⟩ := repo.getFilename_ordinary ordinary
  rw [file, List.reverse_append, List.reverse_append, List.append_assoc,
    List.take_append_of_le_length (by simpa using short)]

theorem blobRepository_ext (basedir : Bytes) (repo : RepoName) :
    2 ≤ (blobRepository basedir repo).ext.length ∧ 0x2F ∉ (blobRepository basedir repo).ext := by
  cases repo <;> simp only [blobRepository] <;> decide

theorem getFilename_tail {repo : RepoName} {id : BlobID} (ordinary : OrdinaryBlobID id) :
    ((blobRepository basedir repo).getFilename id).reverse.take 2 =
      (blobRepository basedir repo).ext.reverse.take 2 :=
  getFilename_reverse_take ordinary (blobRepository_ext basedir repo).1

/-- The three repositories' files are told apart by the last two bytes of their extensions. -/
theorem blobRepository_getFilename_eq {repo repo' : RepoName} (media : repo ≠ .cache) (media' : repo' ≠ .cache)
    {id id' : BlobID} (ordinary : OrdinaryBlobID id) (ordinary' : OrdinaryBlobID id') :
    (blobRepository basedir repo).getFilename id = (blobRepository basedir repo').getFilename id' ↔
      repo = repo' ∧ id = id' := by
  refine ⟨fun same => ?_, fun ⟨rfl, rfl⟩ => rfl⟩
  have tails := congrArg (fun path : Bytes => path.reverse.take 2) same
  simp only [getFilename_tail ordinary, getFilename_tail ordinary'] at tails
  obtain rfl : repo = repo' := by
    cases repo <;> cases repo' <;> first | rfl | exact absurd rfl media | exact absurd rfl media' |
      exact absurd tails (by simp only [blobRepository]; decide)
  exact ⟨rfl, (blobRepository basedir repo).getFilename_injective (blobRepository_ext basedir repo).2
    ordinary ordinary' same⟩

theorem lockfile_ne_getFilename {repo repo' : RepoName} (id : BlobID) (media' : repo' ≠ .cache) {id' : BlobID}
    (ordinary' : OrdinaryBlobID id') :
    (blobRepository basedir repo).lockfile id ≠ (blobRepository basedir repo').getFilename id' := by
  intro same
  have tails := congrArg (fun path : Bytes => path.reverse.take 2) same
  simp only [FileSystemRepository.lockfile, List.reverse_append, getFilename_tail ordinary'] at tails
  rw [List.take_append_of_le_length (by decide)] at tails
  cases repo' <;> first | exact absurd rfl media' | exact absurd tails (by simp only [blobRepository]; decide)

end Paths

namespace FilesAbstract

variable {basedir : Bytes} {files : Files} {repos : Repos}

theorem empty (basedir : Bytes) : FilesAbstract basedir (fun _ => none) Repos.empty := fun repo _ _ _ => by
  cases repo <;> rfl

/-- A call on an ordinary id answers on the files as on the maps, and keeps them in step. -/
theorem step (abstract : FilesAbstract basedir files repos) {op : RepoOp} (onOrdinary : op.OnOrdinary) :
    ∃ after, op.onFiles basedir files = some ((op.apply repos).1, after) ∧
      FilesAbstract basedir after (op.apply repos).2 := by
  cases op with
  | lock repo id exclusive | release repo id exclusive =>
    exact ⟨_, rfl, fun repo' media' id' ordinary' => by
      simp only [if_neg (lockfile_ne_getFilename id media' ordinary').symm]
      exact abstract repo' media' id' ordinary'⟩
  | «exists» repo id =>
    refine ⟨files, ?_, abstract⟩
    simp only [RepoOp.onFiles, RepoOp.apply, FileSystemRepository.blobExists,
      abstract repo onOrdinary.1 id onOrdinary.2]
  | fetch repo id =>
    simp only [RepoOp.onFiles, RepoOp.apply, FileSystemRepository.fetchBlob,
      abstract repo onOrdinary.1 id onOrdinary.2]
    cases repos.get repo id <;> exact ⟨files, rfl, abstract⟩
  | store repo blob =>
    refine ⟨_, rfl, fun repo' media' id' ordinary' => ?_⟩
    simp only [FileSystemRepository.storeBlob, RepoOp.apply, Repos.get_set_insert,
      blobRepository_getFilename_eq media' onOrdinary.1 ordinary' onOrdinary.2]
    split_ifs
    · rfl
    · exact abstract repo' media' id' ordinary'
  | delete repo id =>
    simp only [RepoOp.onFiles, RepoOp.apply, FileSystemRepository.deleteBlob,
      abstract repo onOrdinary.1 id onOrdinary.2]
    cases repos.get repo id with
    | none => exact ⟨files, rfl, abstract⟩
    | some body =>
      refine ⟨_, rfl, fun repo' media' id' ordinary' => ?_⟩
      simp only [Repos.get_set_erase, blobRepository_getFilename_eq media' onOrdinary.1 ordinary' onOrdinary.2]
      split_ifs
      · rfl
      · exact abstract repo' media' id' ordinary'
  | deleteAll => exact onOrdinary.elim

/-- The run lemma: a program whose calls are all on ordinary ids answers on the files as on the
maps. -/
theorem run (abstract : FilesAbstract basedir files repos) {prog : Prog α} (ordinary : prog.OrdinaryRun repos) :
    ∃ after, prog.runFiles basedir files = some ((prog.run repos).1, after) ∧
      FilesAbstract basedir after (prog.run repos).2 := by
  induction prog generalizing files repos with
  | pure value => exact ⟨files, rfl, abstract⟩
  | call op next ih =>
    obtain ⟨files₁, answer, abstract₁⟩ := abstract.step ordinary.1
    obtain ⟨after, ran, abstract'⟩ := ih _ abstract₁ ordinary.2
    exact ⟨after, by simp only [Prog.runFiles, answer, ran, Prog.run], abstract'⟩

end FilesAbstract

namespace Prog

theorem Calls.mono {ok ok' : RepoOp → Prop} (weaker : ∀ op, ok op → ok' op) {prog : Prog α}
    (calls : prog.Calls ok) : prog.Calls ok' := by
  induction prog with
  | pure _ => trivial
  | call op next ih => exact ⟨weaker op calls.1, fun response => ih response (calls.2 response)⟩

theorem ordinaryRun_of_calls {prog : Prog α} (calls : prog.Calls RepoOp.OnOrdinary) (repos : Repos) :
    prog.OrdinaryRun repos := by
  induction prog generalizing repos with
  | pure _ => trivial
  | call op next ih => exact ⟨calls.1, ih _ (calls.2 _) _⟩

theorem ordinaryRun_bind {x : Prog α} {f : α → Prog β} {repos : Repos} (first : x.OrdinaryRun repos)
    (rest : (f (x.run repos).1).OrdinaryRun (x.run repos).2) : (x >>= f).OrdinaryRun repos := by
  induction x generalizing repos with
  | pure _ => exact rest
  | call op next ih => exact ⟨first.1, ih _ first.2 rest⟩

end Prog

theorem ServiceM.ordinaryRun_bind {x : ServiceM α} {f : α → ServiceM β} {repos : Repos}
    (first : x.run.OrdinaryRun repos)
    (rest : ∀ a, (x.exec repos).1 = .ok a → (f a).run.OrdinaryRun (x.exec repos).2) :
    (x >>= f).run.OrdinaryRun repos := by
  rw [ExceptT.run_bind]
  refine Prog.ordinaryRun_bind first ?_
  revert rest
  simp only [ServiceM.exec]
  cases (x.run.run repos).1 with
  | error err => exact fun _ => trivial
  | ok a => exact fun rest => rest a rfl

theorem ServiceM.ordinaryRun_withLock {repo : RepoName} {id : BlobID} {exclusive : Bool} {body : ServiceM α}
    {repos : Repos} (onOrdinary : repo ≠ .cache ∧ OrdinaryBlobID id) (inside : body.run.OrdinaryRun repos) :
    (withLock repo id exclusive body).run.OrdinaryRun repos :=
  ⟨onOrdinary, show (body.run >>= fun result =>
    Prog.issue (.release repo id exclusive) >>= fun _ => pure result).OrdinaryRun repos from
    Prog.ordinaryRun_bind inside ⟨onOrdinary, trivial⟩⟩

section MetaOrdinary

theorem MetaOrdinary.empty : MetaOrdinary Repos.empty := nofun

theorem MetaOrdinary.apply {repos : Repos} (ordinary : MetaOrdinary repos) {op : RepoOp}
    (keeps : op.KeepsMetaOrdinary) : MetaOrdinary (op.apply repos).2 := by
  intro id body meta found decoded
  cases op with
  | store repo blob =>
    cases repo with
    | meta =>
      simp only [RepoOp.apply, Repos.get, Repos.set, BlobMap.insert_apply] at found
      split_ifs at found
      · exact keeps meta (Option.some.inj found ▸ decoded)
      · exact ordinary id body meta found decoded
    | _ => exact ordinary id body meta found decoded
  | delete repo mediaID =>
    simp only [RepoOp.apply] at found
    split at found
    · cases repo <;> simp only [Repos.get, Repos.set, BlobMap.erase_apply] at found <;>
        first | exact ordinary id body meta found decoded | (split_ifs at found; exact ordinary id body meta found decoded)
    · exact ordinary id body meta found decoded
  | deleteAll repo mediaID pattern =>
    cases repo <;> simp only [RepoOp.apply, Repos.get, Repos.set] at found <;>
      first | exact ordinary id body meta found decoded | (split_ifs at found; exact ordinary id body meta found decoded)
  | fetch repo mediaID =>
    simp only [RepoOp.apply] at found
    split at found <;> exact ordinary id body meta found decoded
  | _ => exact ordinary id body meta found decoded

theorem MetaOrdinary.run {repos : Repos} (ordinary : MetaOrdinary repos) {prog : Prog α}
    (calls : prog.Calls RepoOp.KeepsMetaOrdinary) : MetaOrdinary (prog.run repos).2 := by
  induction prog generalizing repos with
  | pure _ => exact ordinary
  | call op next ih => exact ih _ (ordinary.apply calls.1) (calls.2 _)

end MetaOrdinary

theorem ordinary_newMedia {sha256 : Bytes → Bytes} (digest : ∀ input, (sha256 input).length = 32)
    (data : Bytes) (meta : MediaMeta) :
    OrdinaryBlobID (newMedia sha256 data meta).id ∧ OrdinaryBlobID (newMedia sha256 data meta).hash ∧
      (newMedia sha256 data meta).meta.sanitize.hash = (newMedia sha256 data meta).hash :=
  ⟨ordinary_encodeCrockfordB32LC (by rw [digest]; decide), ordinary_encodeCrockfordB32LC (by rw [digest]; decide),
    (Media.Built.plain (.newMedia data meta)).sanitize.1⟩

section Programs

variable {cfg : MediaConfig} {sha256 : Bytes → Bytes} {repos : Repos}

theorem store_keepsMetaOrdinary {media : Media} (plain : media.Plain) (hash : OrdinaryBlobID media.hash) :
    (store cfg media).run.Calls RepoOp.KeepsMetaOrdinary := by
  refine store_calls cfg media trivial trivial trivial trivial
    (storeSection_calls media trivial trivial trivial (fun meta decoded => ?_)
      (addBackrefs_calls trivial trivial fun _ => trivial))
  rw [MediaMeta.asBlob_body, newMediaMetaFromBlob_toJson, Except.ok.injEq] at decoded
  rwa [← decoded, plain.sanitize.1]

theorem delete_keepsMetaOrdinary (caller : Caller) (mediaID : BlobID) :
    (delete caller mediaID).run.Calls RepoOp.KeepsMetaOrdinary := by
  rw [delete_eq]
  refine calls_withLock trivial trivial ?_
  rw [deleteChecked_run]
  refine ⟨trivial, fun fetched => ?_⟩
  rcases fetched with err | body
  · trivial
  · simp only [afterFetch]
    split
    · trivial
    · split
      · trivial
      · exact calls_withLock trivial trivial
          (deleteSection_calls _ mediaID trivial trivial trivial trivial (fun _ => trivial) trivial)

theorem fetch_keepsMetaOrdinary (caller : Caller) (mediaID : BlobID) :
    (fetch sha256 caller mediaID).run.Calls RepoOp.KeepsMetaOrdinary :=
  (fetch_readOnly sha256 caller mediaID).mono fun op readOnly => by
    cases op with
    | store => exact readOnly.elim
    | _ => trivial

theorem store_onOrdinary {media : Media} (id : OrdinaryBlobID media.id) (hash : OrdinaryBlobID media.hash) :
    (store cfg media).run.Calls RepoOp.OnOrdinary :=
  store_calls cfg media ⟨nofun, id⟩ ⟨nofun, id⟩ ⟨nofun, hash⟩ ⟨nofun, hash⟩
    (storeSection_calls media ⟨nofun, hash⟩ ⟨nofun, hash⟩ ⟨nofun, id⟩ ⟨nofun, id⟩
      (addBackrefs_calls ⟨nofun, hash⟩ ⟨nofun, hash⟩ fun _ => ⟨nofun, hash⟩))

theorem delete_ordinaryRun (ordinary : MetaOrdinary repos) (caller : Caller) {mediaID : BlobID}
    (named : OrdinaryBlobID mediaID) : (delete caller mediaID).run.OrdinaryRun repos := by
  rw [delete_eq]
  refine ordinaryRun_withLock ⟨nofun, named⟩ ?_
  rw [deleteChecked_run]
  refine ⟨⟨nofun, named⟩, ?_⟩
  simp only [RepoOp.apply]
  cases found : repos.get .meta mediaID with
  | none => trivial
  | some body =>
    simp only [afterFetch]
    cases decoded : newMediaMetaFromBlob body with
    | error err => trivial
    | ok meta =>
      have hash := ordinary mediaID body meta found decoded
      simp only
      split
      · trivial
      · refine Prog.ordinaryRun_of_calls ?_ _
        exact calls_withLock ⟨nofun, hash⟩ ⟨nofun, hash⟩ (deleteSection_calls meta mediaID ⟨nofun, hash⟩
          ⟨nofun, hash⟩ ⟨nofun, hash⟩ ⟨nofun, hash⟩ (fun _ => ⟨nofun, hash⟩) ⟨nofun, named⟩)

theorem fetch_ordinaryRun (ordinary : MetaOrdinary repos) (sha256 : Bytes → Bytes) (caller : Caller) {mediaID : BlobID}
    (named : OrdinaryBlobID mediaID) : (fetch sha256 caller mediaID).run.OrdinaryRun repos := by
  refine ordinaryRun_withLock ⟨nofun, named⟩
    (ServiceM.ordinaryRun_bind ⟨⟨nofun, named⟩, trivial⟩ fun body fetched => ?_)
  have found : repos.meta mediaID = some body := by
    cases stored : repos.meta mediaID with
    | none => simp [exec_repoFetch_of_none .meta stored] at fetched
    | some body' => simpa [exec_repoFetch_of_some .meta stored] using fetched
  refine ServiceM.ordinaryRun_bind trivial fun meta decoded => Prog.ordinaryRun_of_calls ?_ _
  have hash := ordinary mediaID body meta found (by simpa [ServiceM.exec] using decoded)
  have dataPart : (withLock .data meta.hash false do
      let data ← repoFetch .data meta.hash
      pure (newMedia sha256 data meta)).run.Calls RepoOp.OnOrdinary :=
    calls_withLock ⟨nofun, hash⟩ ⟨nofun, hash⟩ (calls_bind (calls_repoFetch ⟨nofun, hash⟩) fun _ => calls_pure _)
  exact calls_ite (calls_bind (calls_throw _) fun _ => dataPart) (calls_bind (calls_pure _) fun _ => dataPart)

end Programs

theorem MediaCall.exec_store_eq (cfg : MediaConfig) (sha256 : Bytes → Bytes) (media : Media) (repos : Repos) :
    (MediaCall.store media).exec cfg sha256 repos = Prod.map .stored id ((BlobMediaService.store cfg media).exec repos) :=
  rfl

theorem MediaCall.exec_fetch_eq (cfg : MediaConfig) (sha256 : Bytes → Bytes) (caller : Caller) (mediaID : BlobID)
    (repos : Repos) :
    (MediaCall.fetch caller mediaID).exec cfg sha256 repos =
      Prod.map .fetched id ((BlobMediaService.fetch sha256 caller mediaID).exec repos) := rfl

theorem MediaCall.exec_delete_eq (cfg : MediaConfig) (sha256 : Bytes → Bytes) (caller : Caller) (mediaID : BlobID)
    (repos : Repos) :
    (MediaCall.delete caller mediaID).exec cfg sha256 repos =
      Prod.map .deleted id ((BlobMediaService.delete caller mediaID).exec repos) := rfl

/-- A service call on ordinary ids that keeps metadata hashes ordinary answers on the files as on
the maps, and keeps both invariants. -/
theorem FilesAbstract.service {basedir : Bytes} {files : Files} {repos : Repos}
    (abstract : FilesAbstract basedir files repos) (ordinary : MetaOrdinary repos) {action : ServiceM α}
    (onOrdinary : action.run.OrdinaryRun repos) (keeps : action.run.Calls RepoOp.KeepsMetaOrdinary)
    (result : Except ServiceError α → MediaResult) :
    ∃ after, (action.run.runFiles basedir files).map (Prod.map result id) =
        some ((Prod.map result id (action.exec repos)).1, after) ∧
      FilesAbstract basedir after (Prod.map result id (action.exec repos)).2 ∧
      MetaOrdinary (Prod.map result id (action.exec repos)).2 := by
  obtain ⟨after, ran, abstract'⟩ := abstract.run onOrdinary
  exact ⟨after, by rw [ran]; rfl, abstract', ordinary.run keeps⟩

/-- One call of the media service answers on the files as on the maps, keeps them in step, and
keeps every metadata blob naming an ordinary hash. -/
theorem FilesAbstract.exec {basedir : Bytes} {files : Files} {repos : Repos}
    (abstract : FilesAbstract basedir files repos) (ordinary : MetaOrdinary repos) (cfg : MediaConfig)
    {sha256 : Bytes → Bytes} (digest : ∀ input, (sha256 input).length = 32) {call : MediaCall}
    (built : ∀ m ∈ storedMedia [call], ∃ data meta, m = newMedia sha256 data meta) (named : call.OrdinaryID) :
    ∃ after, call.execFiles cfg sha256 basedir files = some ((call.exec cfg sha256 repos).1, after) ∧
      FilesAbstract basedir after (call.exec cfg sha256 repos).2 ∧ MetaOrdinary (call.exec cfg sha256 repos).2 := by
  cases call with
  | store media =>
    obtain ⟨data, meta, rfl⟩ := built _ (List.mem_singleton_self _)
    obtain ⟨id, hash, -⟩ := ordinary_newMedia digest data meta
    rw [MediaCall.exec_store_eq]
    exact abstract.service ordinary (Prog.ordinaryRun_of_calls (store_onOrdinary id hash) repos)
      (store_keepsMetaOrdinary (Media.Built.plain (.newMedia data meta)) hash) .stored
  | fetch caller mediaID =>
    rw [MediaCall.exec_fetch_eq]
    exact abstract.service ordinary (fetch_ordinaryRun ordinary sha256 caller named)
      (fetch_keepsMetaOrdinary caller mediaID) .fetched
  | delete caller mediaID =>
    rw [MediaCall.exec_delete_eq]
    exact abstract.service ordinary (delete_ordinaryRun ordinary caller named)
      (delete_keepsMetaOrdinary caller mediaID) .deleted

end Homecase
