import Homecase.Repo.Program

namespace Homecase

/-! # The media service

`BlobMediaService` of `internal/svc/mediasvc`, line by line as a program over the data, backref
and meta repositories. The caller's identity is the username the request context carries, if
any (`UsernameFromContext`).
-/

structure MediaConfig where
  maxSize : Int
  deriving Repr

/-- `MediaConfig` as the environment leaves it: `MAX_SIZE` of 20 MiB. -/
def MediaConfig.default : MediaConfig := ⟨20971520⟩

/-- The username `UsernameFromContext` finds in the request context, if any. -/
abbrev Caller := Option Bytes

/-- The backreference list a blob holds: `bytes.Join(ids, "\n")`. -/
def backrefBody (backrefs : List BlobID) : Bytes := [0x0A].intercalate backrefs

namespace BlobMediaService

open ServiceM

def fetchMeta (mediaID : BlobID) : ServiceM MediaMeta := do
  let body ← repoFetch .meta mediaID
  ExceptT.mk (pure (newMediaMetaFromBlob body))

def fetchBackrefs (blobID : BlobID) : ServiceM (List BlobID) := do
  if !(← repoExists .backref blobID) then return []
  let body ← repoFetch .backref blobID
  return body.splitOn 0x0A

def storeBackrefs (blobID : BlobID) (backrefs : List BlobID) : ServiceM Unit :=
  repoStore .backref ⟨blobID, backrefBody backrefs⟩

def addBackrefs (dataID metaID : BlobID) : ServiceM Unit := do
  let backrefs ← fetchBackrefs dataID
  storeBackrefs dataID (backrefs ++ [metaID])

def pruneMedia (meta : MediaMeta) : ServiceM Bool := do
  let backrefs ← fetchBackrefs meta.hash
  let backrefs := backrefs.filter (· != meta.id)
  if backrefs.isEmpty then
    repoDelete .data meta.hash
    repoDelete .backref meta.hash
    return true
  storeBackrefs meta.hash backrefs
  return false

def store (cfg : MediaConfig) (media : Media) : ServiceM Unit := do
  if media.size > cfg.maxSize then throw .mediaTooLarge
  let metaBlob := media.meta.asBlob
  withLock .meta metaBlob.id true do
    let dataBlob := media.asBlob
    withLock .data dataBlob.id true do
      if !(← repoExists .data dataBlob.id) then
        repoStore .data dataBlob
      if !(← repoExists .meta metaBlob.id) then
        repoStore .meta metaBlob
        addBackrefs dataBlob.id metaBlob.id

/-- `BlobMediaService.Delete`: whether the content was pruned, and its hash. -/
def delete (caller : Caller) (mediaID : BlobID) : ServiceM (Bool × BlobID) :=
  withLock .meta mediaID false do
    let meta ← fetchMeta mediaID
    if caller ≠ some meta.owner then throw .unauthorized
    withLock .data meta.hash true do
      let pruned ← pruneMedia meta
      repoDelete .meta mediaID
      return (pruned, meta.hash)

def fetch (sha256 : Bytes → Bytes) (caller : Caller) (mediaID : BlobID) : ServiceM Media :=
  withLock .meta mediaID false do
    let body ← repoFetch .meta mediaID
    let meta ← ExceptT.mk (pure (newMediaMetaFromBlob body))
    if caller ≠ some meta.owner then throw .unauthorized
    withLock .data meta.hash false do
      let data ← repoFetch .data meta.hash
      return newMedia sha256 data meta

end BlobMediaService

/-- The ids a backreference blob lists, as `fetchBackrefs` reads them. -/
def backrefLines : Option Bytes → List BlobID
  | some body => body.splitOn 0x0A
  | none => []

@[simp] theorem Media.meta_id (media : Media) : media.meta.id = media.id := rfl

@[simp] theorem Media.meta_hash (media : Media) : media.meta.hash = media.hash := rfl

@[simp] theorem MediaMeta.asBlob_id (meta : MediaMeta) : meta.asBlob.id = meta.id := rfl

@[simp] theorem MediaMeta.asBlob_body (meta : MediaMeta) : meta.asBlob.body = meta.toJson := rfl

@[simp] theorem Media.asBlob_id (media : Media) : media.asBlob.id = media.hash := rfl

@[simp] theorem Media.asBlob_body (media : Media) : media.asBlob.body = media.data := rfl

namespace BlobMediaService

open ServiceM

theorem exec_fetchBackrefs (blobID : BlobID) (repos : Repos) :
    (fetchBackrefs blobID).exec repos = (.ok (backrefLines (repos.backref blobID)), repos) := by
  cases found : repos.backref blobID with
  | none => simp [fetchBackrefs, exec_bind, Repos.get, found, backrefLines]
  | some body =>
    simp [fetchBackrefs, exec_bind, Repos.get, found, backrefLines,
      exec_repoFetch_of_some .backref found]

theorem exec_addBackrefs (dataID metaID : BlobID) (repos : Repos) :
    (addBackrefs dataID metaID).exec repos =
      (.ok (), repos.set .backref (repos.backref.insert dataID
        (backrefBody (backrefLines (repos.backref dataID) ++ [metaID])))) := by
  simp [addBackrefs, exec_bind, exec_fetchBackrefs, storeBackrefs, Repos.get]

/-- The repositories after a store that brings a new media id. -/
def storeNew (media : Media) (repos : Repos) : Repos :=
  { repos with
    data := if (repos.data media.hash).isSome then repos.data
      else repos.data.insert media.hash media.data
    meta := repos.meta.insert media.id media.meta.toJson
    backref := repos.backref.insert media.hash
      (backrefBody (backrefLines (repos.backref media.hash) ++ [media.id])) }

theorem exec_store_new (cfg : MediaConfig) (media : Media) (repos : Repos)
    (fits : ¬ media.size > cfg.maxSize) (fresh : repos.meta media.id = none) :
    (store cfg media).exec repos = (.ok (), storeNew media repos) := by
  cases found : repos.data media.hash <;>
  simp [store, fits, exec_bind, Repos.get, Repos.set, found, fresh, exec_addBackrefs, storeNew]

theorem exec_store_tooLarge (cfg : MediaConfig) (media : Media) (repos : Repos)
    (large : media.size > cfg.maxSize) :
    (store cfg media).exec repos = (.error .mediaTooLarge, repos) := by
  simp [store, large, exec_bind]

theorem exec_store_present (cfg : MediaConfig) (media : Media) (repos : Repos) {body : Bytes}
    (fits : ¬ media.size > cfg.maxSize) (present : repos.meta media.id = some body)
    (hasData : (repos.data media.hash).isSome) :
    (store cfg media).exec repos = (.ok (), repos) := by
  simp [store, fits, exec_bind, Repos.get, present, hasData]

theorem exec_pruneMedia_kept (meta : MediaMeta) (repos : Repos)
    (kept : (backrefLines (repos.backref meta.hash)).filter (· != meta.id) ≠ []) :
    (pruneMedia meta).exec repos =
      (.ok false, { repos with
        backref := repos.backref.insert meta.hash
          (backrefBody ((backrefLines (repos.backref meta.hash)).filter (· != meta.id))) }) := by
  have notEmpty : ((backrefLines (repos.backref meta.hash)).filter (· != meta.id)).isEmpty = false :=
    by simpa [List.isEmpty_iff] using kept
  simp only [pruneMedia, exec_bind, exec_fetchBackrefs, Repos.get, notEmpty]
  simp [exec_bind, storeBackrefs, Repos.get, Repos.set]

theorem exec_pruneMedia_last (meta : MediaMeta) (repos : Repos) {data backref : Bytes}
    (last : (backrefLines (repos.backref meta.hash)).filter (· != meta.id) = [])
    (hasData : repos.data meta.hash = some data) (hasBackref : repos.backref meta.hash = some backref) :
    (pruneMedia meta).exec repos =
      (.ok true, { repos with
        data := repos.data.erase meta.hash
        backref := repos.backref.erase meta.hash }) := by
  simp only [pruneMedia, exec_bind, exec_fetchBackrefs, Repos.get, last, List.isEmpty_nil]
  simp [exec_bind, Repos.get, Repos.set, exec_repoDelete_of_isSome, hasData, hasBackref]

theorem exec_fetchMeta_of_some {mediaID : BlobID} {repos : Repos} {body : Bytes}
    (found : repos.meta mediaID = some body) :
    (fetchMeta mediaID).exec repos = (newMediaMetaFromBlob body, repos) := by
  simp only [fetchMeta, exec_bind, exec_repoFetch_of_some .meta found]
  rfl

theorem exec_delete_absent (caller : Caller) {mediaID : BlobID} {repos : Repos}
    (absent : repos.meta mediaID = none) :
    (delete caller mediaID).exec repos = (.error .notFound, repos) := by
  simp [delete, exec_bind, fetchMeta, exec_repoFetch_of_none .meta absent]

theorem exec_delete_unauthorized {caller : Caller} {mediaID : BlobID} {repos : Repos} {body : Bytes}
    {meta : MediaMeta} (found : repos.meta mediaID = some body)
    (decoded : newMediaMetaFromBlob body = .ok meta) (other : caller ≠ some meta.owner) :
    (delete caller mediaID).exec repos = (.error .unauthorized, repos) := by
  simp [delete, exec_bind, exec_fetchMeta_of_some found, decoded, other]

theorem exec_delete_owner {caller : Caller} {mediaID : BlobID} {repos after : Repos} {body : Bytes}
    {meta : MediaMeta} {pruned : Bool} (found : repos.meta mediaID = some body)
    (decoded : newMediaMetaFromBlob body = .ok meta) (owner : caller = some meta.owner)
    (prune : (pruneMedia meta).exec repos = (.ok pruned, after)) (kept : (after.meta mediaID).isSome) :
    (delete caller mediaID).exec repos =
      (.ok (pruned, meta.hash), { after with meta := after.meta.erase mediaID }) := by
  simp [delete, exec_bind, exec_fetchMeta_of_some found, decoded, owner, prune,
    exec_repoDelete_of_isSome .meta kept,
    Repos.get, Repos.set]

theorem exec_fetch_absent (sha256 : Bytes → Bytes) (caller : Caller) {mediaID : BlobID}
    {repos : Repos} (absent : repos.meta mediaID = none) :
    (fetch sha256 caller mediaID).exec repos = (.error .notFound, repos) := by
  simp [fetch, exec_bind, exec_repoFetch_of_none .meta absent]

theorem exec_fetch_invalid (sha256 : Bytes → Bytes) (caller : Caller) {mediaID : BlobID}
    {repos : Repos} {body : Bytes} {err : ServiceError} (found : repos.meta mediaID = some body)
    (invalid : newMediaMetaFromBlob body = .error err) :
    (fetch sha256 caller mediaID).exec repos = (.error err, repos) := by
  simp only [fetch, exec_withLock, exec_bind, exec_repoFetch_of_some .meta found]
  simp [invalid]

theorem exec_fetch_unauthorized (sha256 : Bytes → Bytes) {caller : Caller} {mediaID : BlobID}
    {repos : Repos} {body : Bytes} {meta : MediaMeta} (found : repos.meta mediaID = some body)
    (decoded : newMediaMetaFromBlob body = .ok meta) (other : caller ≠ some meta.owner) :
    (fetch sha256 caller mediaID).exec repos = (.error .unauthorized, repos) := by
  simp only [fetch, exec_withLock, exec_bind, exec_repoFetch_of_some .meta found]
  simp [exec_bind, decoded, other]

theorem exec_fetch_owner (sha256 : Bytes → Bytes) {caller : Caller} {mediaID : BlobID}
    {repos : Repos} {body data : Bytes} {meta : MediaMeta} (found : repos.meta mediaID = some body)
    (decoded : newMediaMetaFromBlob body = .ok meta) (owner : caller = some meta.owner)
    (hasData : repos.data meta.hash = some data) :
    (fetch sha256 caller mediaID).exec repos = (.ok (newMedia sha256 data meta), repos) := by
  simp only [fetch, exec_withLock, exec_bind, exec_repoFetch_of_some .meta found]
  simp [exec_bind, decoded, owner, exec_repoFetch_of_some .data hasData]

theorem exec_fetch_noData (sha256 : Bytes → Bytes) {caller : Caller} {mediaID : BlobID}
    {repos : Repos} {body : Bytes} {meta : MediaMeta} (found : repos.meta mediaID = some body)
    (decoded : newMediaMetaFromBlob body = .ok meta) (owner : caller = some meta.owner)
    (noData : repos.data meta.hash = none) :
    (fetch sha256 caller mediaID).exec repos = (.error .notFound, repos) := by
  simp only [fetch, exec_withLock, exec_bind, exec_repoFetch_of_some .meta found]
  simp [exec_bind, decoded, owner, exec_repoFetch_of_none .data noData]

theorem exec_fetch_repos (sha256 : Bytes → Bytes) (caller : Caller) (mediaID : BlobID)
    (repos : Repos) : ((fetch sha256 caller mediaID).exec repos).2 = repos := by
  cases found : repos.meta mediaID with
  | none => rw [exec_fetch_absent sha256 caller found]
  | some body =>
    cases decoded : newMediaMetaFromBlob body with
    | error err => rw [exec_fetch_invalid sha256 caller found decoded]
    | ok meta =>
      by_cases owner : caller = some meta.owner
      · cases hasData : repos.data meta.hash with
        | none => rw [exec_fetch_noData sha256 found decoded owner hasData]
        | some data => rw [exec_fetch_owner sha256 found decoded owner hasData]
      · rw [exec_fetch_unauthorized sha256 found decoded owner]

end BlobMediaService

inductive MediaCall where
  | store (media : Media)
  | fetch (caller : Caller) (mediaID : BlobID)
  | delete (caller : Caller) (mediaID : BlobID)

inductive MediaResult where
  | stored (result : Except ServiceError Unit)
  | fetched (result : Except ServiceError Media)
  | deleted (result : Except ServiceError (Bool × BlobID))

def MediaCall.exec (cfg : MediaConfig) (sha256 : Bytes → Bytes) :
    MediaCall → Repos → MediaResult × Repos
  | .store media, repos =>
    let (result, after) := (BlobMediaService.store cfg media).exec repos
    (.stored result, after)
  | .fetch caller mediaID, repos =>
    let (result, after) := (BlobMediaService.fetch sha256 caller mediaID).exec repos
    (.fetched result, after)
  | .delete caller mediaID, repos =>
    let (result, after) := (BlobMediaService.delete caller mediaID).exec repos
    (.deleted result, after)

/-- The repositories after the calls, made one at a time from empty repositories. -/
def runCalls (cfg : MediaConfig) (sha256 : Bytes → Bytes) (calls : List MediaCall) : Repos :=
  calls.foldl (fun repos call => (call.exec cfg sha256 repos).2) Repos.empty

def storedMedia : List MediaCall → List Media
  | [] => []
  | .store media :: calls => media :: storedMedia calls
  | _ :: calls => storedMedia calls

end Homecase
