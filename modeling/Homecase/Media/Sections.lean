import Homecase.Service.Footprint
import Homecase.Media.Index

namespace Homecase

/-! # The locked sections of the media calls

`Store` and `Delete` make every write while they hold the exclusive lock on the data blob of
one hash. `storeSection` and `deleteSection` are those parts of them, cut out of `store` and
`delete` as they stand (`store_eq`, `delete_eq`, `deleteChecked_run`). Each touches only the
blobs of its section, `sectionBlobs`: the data and backreference blobs of the hash and the
metadata blob of its id (`storeSection_calls`, `deleteSection_calls`). `Fetch` only reads
(`fetch_readOnly`).

On repositories in step with the live media (`Represents`), a store section stores a new media
as a `Store` alone does, a delete section removes a live media as the owner's `Delete` does,
and a delete section whose media is no longer live changes nothing.
-/

open ServiceM

namespace BlobMediaService

/-- The part of `Store` under both its locks. -/
def storeSection (media : Media) : ServiceM Unit := do
  if !(← repoExists .data media.hash) then
    repoStore .data media.asBlob
  if !(← repoExists .meta media.id) then
    repoStore .meta media.meta.asBlob
    addBackrefs media.hash media.id

theorem store_eq (cfg : MediaConfig) (media : Media) (fits : ¬ media.size > cfg.maxSize) :
    store cfg media = withLock .meta media.id true (withLock .data media.hash true (storeSection media)) := by
  rw [store, if_neg fits]
  rfl

/-- The part of `Delete` under both its locks, with the metadata it read. -/
def deleteSection (meta : MediaMeta) (mediaID : BlobID) : ServiceM (Bool × BlobID) := do
  let pruned ← pruneMedia meta
  repoDelete .meta mediaID
  return (pruned, meta.hash)

/-- The part of `Delete` under its metadata lock. -/
def deleteChecked (caller : Caller) (mediaID : BlobID) : ServiceM (Bool × BlobID) := do
  let meta ← fetchMeta mediaID
  if caller ≠ some meta.owner then throw .unauthorized
  withLock .data meta.hash true (deleteSection meta mediaID)

theorem delete_eq (caller : Caller) (mediaID : BlobID) :
    delete caller mediaID = withLock .meta mediaID false (deleteChecked caller mediaID) := rfl

/-- What `deleteChecked` does with the metadata blob it fetched: decode it, check the owner, and
go on to the data lock. -/
def afterFetch (caller : Caller) (mediaID : BlobID) :
    Except ServiceError Bytes → Prog (Except ServiceError (Bool × BlobID))
  | .error err => .pure (.error err)
  | .ok body =>
    match newMediaMetaFromBlob body with
    | .error err => .pure (.error err)
    | .ok meta =>
      if caller ≠ some meta.owner then .pure (.error .unauthorized)
      else (withLock .data meta.hash true (deleteSection meta mediaID)).run

theorem deleteChecked_run (caller : Caller) (mediaID : BlobID) :
    (deleteChecked caller mediaID).run = .call (.fetch .meta mediaID) (afterFetch caller mediaID) := by
  show Prog.call _ _ = _
  congr 1
  funext fetched
  rcases fetched with err | body
  · rfl
  · show Prog.bind (pure (newMediaMetaFromBlob body)) _ = afterFetch caller mediaID (.ok body)
    cases decoded : newMediaMetaFromBlob body with
    | error err => simp only [afterFetch, decoded]; rfl
    | ok meta =>
      simp only [afterFetch, decoded]
      show ExceptT.run (ite _ _ _) = ite _ _ _
      by_cases owner : caller ≠ some meta.owner
      · rw [if_pos owner, if_pos owner]; rfl
      · rw [if_neg owner, if_neg owner]; rfl

section Calls

variable {ok : RepoOp → Prop}

theorem fetchBackrefs_calls {hash : BlobID} (backrefExists : ok (.exists .backref hash))
    (backrefFetch : ok (.fetch .backref hash)) : (fetchBackrefs hash).run.Calls ok :=
  calls_bind (calls_repoExists backrefExists) fun _ => calls_ite (calls_pure _)
    (calls_bind (calls_pure _) fun _ => calls_bind (calls_repoFetch backrefFetch) fun _ => calls_pure _)

theorem addBackrefs_calls {dataID metaID : BlobID} (backrefExists : ok (.exists .backref dataID))
    (backrefFetch : ok (.fetch .backref dataID)) (backrefStore : ∀ body, ok (.store .backref ⟨dataID, body⟩)) :
    (addBackrefs dataID metaID).run.Calls ok :=
  calls_bind (fetchBackrefs_calls backrefExists backrefFetch) fun _ => calls_repoStore (backrefStore _)

theorem storeSection_calls (media : Media) (dataExists : ok (.exists .data media.hash))
    (dataStore : ok (.store .data media.asBlob)) (metaExists : ok (.exists .meta media.id))
    (metaStore : ok (.store .meta media.meta.asBlob)) (backrefs : (addBackrefs media.hash media.id).run.Calls ok) :
    (storeSection media).run.Calls ok := by
  have metaPart : (do
      if !(← repoExists .meta media.id) then
        repoStore .meta media.meta.asBlob
        addBackrefs media.hash media.id : ServiceM Unit).run.Calls ok :=
    calls_bind (calls_repoExists metaExists) fun _ =>
      calls_ite (calls_bind (calls_repoStore metaStore) fun _ => backrefs) (calls_pure _)
  exact calls_bind (calls_repoExists dataExists) fun _ =>
    calls_ite (calls_bind (calls_repoStore dataStore) fun _ => metaPart)
      (calls_bind (calls_pure _) fun _ => metaPart)

/-- `Store` makes its section's calls inside its two locks, or refuses the media before any call. -/
theorem store_calls (cfg : MediaConfig) (media : Media) (metaLock : ok (.lock .meta media.id true))
    (metaRelease : ok (.release .meta media.id true)) (dataLock : ok (.lock .data media.hash true))
    (dataRelease : ok (.release .data media.hash true)) (inside : (storeSection media).run.Calls ok) :
    (store cfg media).run.Calls ok := by
  by_cases large : media.size > cfg.maxSize
  · have refused : (store cfg media).run = .pure (.error .mediaTooLarge) := by
      simp only [store, if_pos large]
      rfl
    rw [refused]
    trivial
  · rw [store_eq cfg media large]
    exact calls_withLock metaLock metaRelease (calls_withLock dataLock dataRelease inside)

theorem pruneMedia_calls (meta : MediaMeta) (backrefExists : ok (.exists .backref meta.hash))
    (backrefFetch : ok (.fetch .backref meta.hash)) (dataDelete : ok (.delete .data meta.hash))
    (backrefDelete : ok (.delete .backref meta.hash))
    (backrefStore : ∀ body, ok (.store .backref ⟨meta.hash, body⟩)) :
    (pruneMedia meta).run.Calls ok :=
  calls_bind (fetchBackrefs_calls backrefExists backrefFetch) fun _ =>
    calls_ite (calls_bind (calls_repoDelete dataDelete) fun _ =>
        calls_bind (calls_repoDelete backrefDelete) fun _ => calls_pure _)
      (calls_bind (calls_pure _) fun _ => calls_bind (calls_repoStore (backrefStore _)) fun _ => calls_pure _)

theorem deleteSection_calls (meta : MediaMeta) (mediaID : BlobID)
    (backrefExists : ok (.exists .backref meta.hash)) (backrefFetch : ok (.fetch .backref meta.hash))
    (dataDelete : ok (.delete .data meta.hash)) (backrefDelete : ok (.delete .backref meta.hash))
    (backrefStore : ∀ body, ok (.store .backref ⟨meta.hash, body⟩)) (metaDelete : ok (.delete .meta mediaID)) :
    (deleteSection meta mediaID).run.Calls ok :=
  calls_bind (pruneMedia_calls meta backrefExists backrefFetch dataDelete backrefDelete backrefStore)
    fun _ => calls_bind (calls_repoDelete metaDelete) fun _ => calls_pure _

/-- `Fetch` reads, and takes only shared locks. -/
theorem fetch_readOnly (sha256 : Bytes → Bytes) (caller : Caller) (mediaID : BlobID) :
    (fetch sha256 caller mediaID).run.Calls RepoOp.ReadOnly := by
  have dataPart (meta : MediaMeta) : (withLock .data meta.hash false do
      let data ← repoFetch .data meta.hash
      pure (newMedia sha256 data meta)).run.Calls RepoOp.ReadOnly :=
    calls_withLock rfl trivial (calls_bind (calls_repoFetch trivial) fun _ => calls_pure _)
  exact calls_withLock rfl trivial (calls_bind (calls_repoFetch trivial) fun _ =>
    calls_bind (calls_mk_pure _) fun meta =>
      calls_ite (calls_bind (calls_throw _) fun _ => dataPart meta) (calls_bind (calls_pure _) fun _ => dataPart meta))

end Calls

theorem exec_deleteSection {meta : MediaMeta} {mediaID : BlobID} {repos after : Repos} {pruned : Bool}
    (prune : (pruneMedia meta).exec repos = (.ok pruned, after)) (kept : (after.meta mediaID).isSome) :
    (deleteSection meta mediaID).exec repos =
      (.ok (pruned, meta.hash), { after with meta := after.meta.erase mediaID }) := by
  simp [deleteSection, exec_bind, prune, exec_repoDelete_of_isSome .meta kept, Repos.get, Repos.set]

end BlobMediaService

open BlobMediaService

/-- The blobs of a section on `hash` for the media `id`: the data and backreference blobs of the
hash, and the metadata blob of the id. -/
def sectionBlobs (hash id : BlobID) : Blobs := fun repo other =>
  (repo = .data ∧ other = hash) ∨ (repo = .backref ∧ other = hash) ∨ (repo = .meta ∧ other = id)

theorem storeSection_within (media : Media) :
    (storeSection media).run.Calls (RepoOp.Touches (sectionBlobs media.hash media.id)) :=
  storeSection_calls media (.inl ⟨rfl, rfl⟩) (.inl ⟨rfl, rfl⟩) (.inr (.inr ⟨rfl, rfl⟩)) (.inr (.inr ⟨rfl, rfl⟩))
    (addBackrefs_calls (.inr (.inl ⟨rfl, rfl⟩)) (.inr (.inl ⟨rfl, rfl⟩)) fun _ => .inr (.inl ⟨rfl, rfl⟩))

theorem deleteSection_within (meta : MediaMeta) (mediaID : BlobID) :
    (deleteSection meta mediaID).run.Calls (RepoOp.Touches (sectionBlobs meta.hash mediaID)) :=
  deleteSection_calls meta mediaID (.inr (.inl ⟨rfl, rfl⟩)) (.inr (.inl ⟨rfl, rfl⟩)) (.inl ⟨rfl, rfl⟩)
    (.inr (.inl ⟨rfl, rfl⟩)) (fun _ => .inr (.inl ⟨rfl, rfl⟩)) (.inr (.inr ⟨rfl, rfl⟩))

theorem deleteSection_spares (meta : MediaMeta) (mediaID : BlobID) :
    (deleteSection meta mediaID).run.Calls (RepoOp.Spares .meta mediaID) :=
  deleteSection_calls meta mediaID trivial trivial trivial trivial (fun _ => nofun) trivial

section Effects

variable {live : List Media} {repos : Repos}

theorem Represents.exec_storeSection (represents : Represents live repos) {cfg : MediaConfig}
    {media : Media} (fits : ¬ media.size > cfg.maxSize)
    (unique : ∀ m ∈ live, m.id = media.id → m.hash = media.hash) :
    (storeSection media).exec repos =
      (.ok (), if media.id ∈ live.map Media.id then repos else storeNew media repos) := by
  have whole := represents.exec_store cfg media unique
  rw [store_eq cfg media fits, exec_withLock, exec_withLock, if_neg fits] at whole
  rw [whole]
  split_ifs <;> rfl

theorem Represents.exec_deleteSection (represents : Represents live repos) {media : Media}
    (member : media ∈ live) :
    (deleteSection media.meta.sanitize media.id).exec repos =
      (.ok ((pruneRest live media).isEmpty, media.hash), deleteLive live media repos) := by
  rw [BlobMediaService.exec_deleteSection (represents.exec_pruneMedia member)
      (by simp [represents.meta_of_mem member]),
    (represents.plain media member).sanitize.1]
  rfl

theorem Repos.backref_insert_self {repos : Repos} {hash : BlobID} {body : Bytes}
    (found : repos.backref hash = some body) :
    { repos with backref := repos.backref.insert hash body } = repos := by
  have same : repos.backref.insert hash body = repos.backref := funext fun other => by
    by_cases at_hash : other = hash
    · rw [at_hash, found, BlobMap.insert_apply, if_pos rfl]
    · rw [BlobMap.insert_apply, if_neg at_hash]
  rw [same]

/-- A delete section for an id that is no longer live finds it gone and changes nothing. -/
theorem Represents.exec_deleteSection_gone (represents : Represents live repos) {meta : MediaMeta}
    {mediaID : BlobID} (gone : mediaID ∉ live.map Media.id) (named : meta.id = mediaID) :
    (deleteSection meta mediaID).exec repos = (.error .notFound, repos) := by
  have lines := represents.backrefLines_eq meta.hash
  have unlisted : (linesOf live meta.hash).filter (· != meta.id) = linesOf live meta.hash :=
    List.filter_eq_self.mpr fun id listed => by
      obtain ⟨m, member, -, rfl⟩ := mem_linesOf.mp listed
      simpa [named] using fun same : m.id = mediaID => gone (List.mem_map.mpr ⟨m, member, same⟩)
  have metaGone : repos.meta mediaID = none := by
    rw [represents.meta, List.find?_eq_none.mpr fun m member same =>
      gone (List.mem_map.mpr ⟨m, member, by simpa using same⟩)]
    rfl
  by_cases empty : linesOf live meta.hash = []
  · have noData : repos.data meta.hash = none := by
      simpa [empty] using (represents.data meta.hash).not.mpr (by simp [empty])
    simp [deleteSection, pruneMedia, exec_bind, exec_fetchBackrefs, lines, unlisted, empty, Repos.get,
      exec_repoDelete_of_none .data noData]
  · rw [deleteSection, exec_bind, exec_pruneMedia_kept _ _ (by rw [lines, unlisted]; exact empty),
      lines, unlisted, Repos.backref_insert_self (by rw [represents.backref, backrefOf_of_ne_nil empty])]
    simp [exec_bind, exec_repoDelete_of_none .meta metaGone]

end Effects

end Homecase
