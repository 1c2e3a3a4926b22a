import Homecase.Image.Service

namespace Homecase

/-! # The HTTP handlers of one image

`handleDelete` and `handleDownload` of `HTTPTransport` read the media id from the URL path and
answer 400 when it is empty. They normalize it with `NormalizeCrockfordB32LC`, and
`handleDownload` parses the `width` query value with `strconv.ParseInt(s, 10, 64)` when there is
one, answering 400 when that fails. They then call the image service and answer 404 for an error
that `errors.Is` matches to `ErrUnauthorized` or to `os.ErrNotExist`, and 500 for any other.

The ownership check of the media service runs before any other repository call of `Delete` and
`Fetch`. A caller who does not own a media therefore changes nothing and gets the response that
a media with no metadata gets (`foreign_media_indistinguishable`).
-/

def statusBadRequest : Nat := 400

def statusNotFound : Nat := 404

def statusInternalServerError : Nat := 500

inductive Response where
  | error (status : Nat)
  | ok (headers : List (Bytes × Bytes)) (body : Bytes)
  deriving DecidableEq, Repr

structure HTTPTransportConfig where
  contentDispositionDownload : Bool
  deriving DecidableEq, Repr

/-- `HTTPTransportConfig` as the environment leaves it: `CONTENT_DISPOSITION_DOWNLOAD` false. -/
def HTTPTransportConfig.default : HTTPTransportConfig := ⟨false⟩

/-- The `switch` of both handlers on the error of the image service. -/
def errorStatus : ServiceError → Nat
  | .unauthorized => statusNotFound
  | .notFound => statusNotFound
  | _ => statusInternalServerError

/-- `strconv.ParseUint(s, 10, 64)` up to its range check: one or more decimal digits. -/
def parseDecimal (s : Bytes) : Option Nat :=
  if s ≠ [] ∧ s.all fun c => 0x30 ≤ c.val ∧ c.val ≤ 0x39 then
    some (s.foldl (fun value c => value * 10 + (c.val - 0x30)) 0)
  else none

/-- `strconv.ParseInt(s, 10, 64)`: an optional sign, then decimal digits, within `int64`. -/
def parseInt64 (s : Bytes) : Option Int :=
  let (neg, digits) : Bool × Bytes :=
    match s with
    | 0x2B :: rest => (false, rest)
    | 0x2D :: rest => (true, rest)
    | _ => (false, s)
  match parseDecimal digits with
  | none => none
  | some value =>
    if neg then (if value ≤ 2 ^ 63 then some (-(value : Int)) else none)
    else if value < 2 ^ 63 then some value else none

/-- The width of a download: zero without a `width` query value, else the value parsed. -/
def queryWidth (widthStr : Bytes) : Option Int := if widthStr = [] then some 0 else parseInt64 widthStr

/-- The headers of a download: `Content-Disposition` when the configuration asks for it, then
`Content-Type` and `Content-Length`. -/
def downloadHeaders (transport : HTTPTransportConfig) (media : Media) : List (Bytes × Bytes) :=
  (if transport.contentDispositionDownload then
    [(ascii "Content-Disposition", ascii "attachment; filename=" ++ media.meta.filename)]
  else []) ++
    [(ascii "Content-Type", media.mimeType), (ascii "Content-Length", Json.formatInt media.size)]

def handleDelete (caller : Caller) (mediaID : Bytes) : Prog Response :=
  if mediaID = [] then pure (.error statusBadRequest)
  else do
    match ← (BlobImageService.delete caller (normalizeCrockfordB32LC mediaID)).run with
    | .error err => pure (.error (errorStatus err))
    | .ok () => pure (.ok [] [])

/-- `HTTPTransport.handleDownload`, up to writing the body. -/
def handleDownload (svc : ImageService) (transport : HTTPTransportConfig) (caller : Caller)
    (fileID widthStr : Bytes) : Prog Response :=
  if fileID = [] then pure (.error statusBadRequest)
  else
    match queryWidth widthStr with
    | none => pure (.error statusBadRequest)
    | some width => do
      match ← (BlobImageService.fetch svc.codec svc.cfg svc.sha256 caller
          (normalizeCrockfordB32LC fileID) width).run with
      | .error err => pure (.error (errorStatus err))
      | .ok media => pure (.ok (downloadHeaders transport media) media.data)

open ServiceM

/-- `handleDelete` of a non-empty id answers with what `ImageService.Delete` of the normalized id
returns. -/
theorem run_handleDelete (caller : Caller) {mediaID : Bytes} (named : mediaID ≠ []) (repos : Repos) :
    (handleDelete caller mediaID).run repos =
      match (BlobImageService.delete caller (normalizeCrockfordB32LC mediaID)).exec repos with
      | (.error err, after) => (.error (errorStatus err), after)
      | (.ok (), after) => (.ok [] [], after) := by
  simp only [handleDelete, if_neg named, ServiceM.exec]
  rw [Prog.run_bind]
  rcases Prog.run (BlobImageService.delete caller (normalizeCrockfordB32LC mediaID)).run repos with
    ⟨_ | ⟨⟩, after⟩ <;> rfl

/-- `handleDownload` of a non-empty id answers 400 for a width it cannot parse, and otherwise
with what `ImageService.Fetch` of the normalized id returns. -/
theorem run_handleDownload (svc : ImageService) (transport : HTTPTransportConfig) (caller : Caller)
    {fileID : Bytes} (named : fileID ≠ []) (widthStr : Bytes) (repos : Repos) :
    (handleDownload svc transport caller fileID widthStr).run repos =
      match queryWidth widthStr with
      | none => (.error statusBadRequest, repos)
      | some width =>
        match (BlobImageService.fetch svc.codec svc.cfg svc.sha256 caller
            (normalizeCrockfordB32LC fileID) width).exec repos with
        | (.error err, after) => (.error (errorStatus err), after)
        | (.ok media, after) => (.ok (downloadHeaders transport media) media.data, after) := by
  simp only [handleDownload, if_neg named, ServiceM.exec]
  rcases queryWidth widthStr with _ | width
  · rfl
  · simp only
    rw [Prog.run_bind]
    rcases Prog.run (BlobImageService.fetch svc.codec svc.cfg svc.sha256 caller
      (normalizeCrockfordB32LC fileID) width).run repos with ⟨_ | _, after⟩ <;> rfl

/-- `ImageService.Delete` and `Fetch` fail as the media service does when it fails first. -/
theorem exec_image_of_refused {caller : Caller} {mediaID : BlobID} {repos : Repos} {err : ServiceError}
    (delete : (BlobMediaService.delete caller mediaID).exec repos = (.error err, repos))
    (fetch : ∀ sha256, (BlobMediaService.fetch sha256 caller mediaID).exec repos = (.error err, repos))
    (svc : ImageService) :
    (BlobImageService.delete caller mediaID).exec repos = (.error err, repos) ∧
      ∀ width, (BlobImageService.fetch svc.codec svc.cfg svc.sha256 caller mediaID width).exec repos =
        (.error err, repos) := by
  refine ⟨?_, fun width => ?_⟩
  · simp [BlobImageService.delete, exec_bind, delete]
  · simp [BlobImageService.fetch, exec_bind, fetch]

/-- On repositories that never fail (no full disk, and no `ENAMETOOLONG` for a file name over
255 bytes), a media that `caller` does not own behaves as a missing one. `Delete` and `Fetch` of
it fail as unauthorized and change no blob, and both handlers give a request for it the response
they give a request for an id with no metadata. -/
theorem foreign_media_indistinguishable (svc : ImageService) (transport : HTTPTransportConfig)
    (caller : Caller) (repos : Repos) :
    (∀ (mediaID body : Bytes) (meta : MediaMeta), repos.meta mediaID = some body →
      newMediaMetaFromBlob body = .ok meta → caller ≠ some meta.owner →
        (BlobImageService.delete caller mediaID).exec repos = (.error .unauthorized, repos) ∧
        ∀ width, (BlobImageService.fetch svc.codec svc.cfg svc.sha256 caller mediaID width).exec
          repos = (.error .unauthorized, repos)) ∧
    ∀ mediaID widthStr : Bytes, mediaID ≠ [] →
      (repos.meta (normalizeCrockfordB32LC mediaID) = none ∨
        ∃ body meta, repos.meta (normalizeCrockfordB32LC mediaID) = some body ∧
          newMediaMetaFromBlob body = .ok meta ∧ caller ≠ some meta.owner) →
      (handleDelete caller mediaID).run repos = (.error statusNotFound, repos) ∧
      (handleDownload svc transport caller mediaID widthStr).run repos =
        (.error (if queryWidth widthStr = none then statusBadRequest else statusNotFound), repos) := by
  have foreign (mediaID body : Bytes) (meta : MediaMeta) (found : repos.meta mediaID = some body)
      (decoded : newMediaMetaFromBlob body = .ok meta) (other : caller ≠ some meta.owner) :=
    exec_image_of_refused (BlobMediaService.exec_delete_unauthorized found decoded other)
      (fun sha256 => BlobMediaService.exec_fetch_unauthorized sha256 found decoded other) svc
  refine ⟨foreign, fun mediaID widthStr named hidden => ?_⟩
  obtain ⟨err, status, delete, fetch⟩ : ∃ err, errorStatus err = statusNotFound ∧
      (BlobImageService.delete caller (normalizeCrockfordB32LC mediaID)).exec repos =
        (.error err, repos) ∧
      ∀ width, (BlobImageService.fetch svc.codec svc.cfg svc.sha256 caller
        (normalizeCrockfordB32LC mediaID) width).exec repos = (.error err, repos) := by
    rcases hidden with absent | ⟨body, meta, found, decoded, other⟩
    · exact ⟨.notFound, rfl, exec_image_of_refused (BlobMediaService.exec_delete_absent caller absent)
        (fun sha256 => BlobMediaService.exec_fetch_absent sha256 caller absent) svc⟩
    · exact ⟨.unauthorized, rfl, foreign _ body meta found decoded other⟩
  rw [run_handleDelete caller named, run_handleDownload svc transport caller named, delete]
  refine ⟨by simp only [status], ?_⟩
  rcases queryWidth widthStr with _ | width
  · rfl
  · simp only [fetch, status, reduceCtorEq, if_false]

theorem foreign_media_indistinguishable_bob :
    let meta : MediaMeta := ⟨ascii "a.png", ascii "m", ascii "h", 1, ascii "alice", mimeTypePNG⟩
    let repos : Repos := { Repos.empty with meta := BlobMap.empty.insert (ascii "m") meta.toJson }
    let svc : ImageService :=
      ⟨.default, .default, ⟨fun _ data => .ok data, fun _ _ data => data, fun _ data => .ok data⟩, id⟩
    (BlobImageService.delete (some (ascii "bob")) (ascii "m")).exec repos =
        (.error .unauthorized, repos) ∧
      (handleDelete (some (ascii "bob")) (ascii "m")).run repos = (.error statusNotFound, repos) ∧
      (handleDownload svc .default (some (ascii "bob")) (ascii "m") []).run repos =
        (.error statusNotFound, repos) := by
  intro meta repos svc
  have decoded := newMediaMetaFromBlob_toJson meta
  have other : some (ascii "bob") ≠ some meta.sanitize.owner := by decide
  have normal : normalizeCrockfordB32LC (ascii "m") = ascii "m" := by decide
  have shown := foreign_media_indistinguishable svc .default (some (ascii "bob")) repos
  have hidden := shown.2 (ascii "m") [] (by decide)
    (.inr ⟨_, _, by rw [normal]; rfl, decoded, other⟩)
  exact ⟨(shown.1 (ascii "m") meta.toJson _ rfl decoded other).1, hidden.1,
    by simpa [queryWidth] using hidden.2⟩

end Homecase
