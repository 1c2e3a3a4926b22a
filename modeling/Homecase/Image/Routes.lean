import Homecase.Image.Http
import Homecase.Infra.Http

namespace Homecase

/-! # The image routes behind authorization

`HTTPTransport.ServeHTTP` of the image service puts `AuthorizingMiddleware` in front of its mux,
and `ListenAndServe` puts `TracingMiddleware` in front of that. `DELETE /media/{media_id}` and
`GET /media/{media_id}` therefore run `handleDelete` and `handleDownload` as the user the auth
service validated, or not at all.

The ownership check of the media service is the only one: a request deletes a media, or gets
one served, only when the auth service validates its header, with `Bearer` cut off and the
spaces trimmed, to a token that names the media's owner (`image_routes_owner_only`).
-/

open Transport

/-- `caller` owns the media `mediaID`: its metadata blob is there, decodes, and names `caller` as
owner. -/
def Owns (caller : Caller) (repos : Repos) (mediaID : BlobID) : Prop :=
  ∃ body meta, repos.meta mediaID = some body ∧ newMediaMetaFromBlob body = .ok meta ∧
    caller = some meta.owner

/-- The image server on `DELETE /media/{media_id}`: the refusal of a middleware, or the response
of `handleDelete` as the validated user. -/
def deleteRoute (doRequest : Request → Option Transport.Response) (clock : Int) (random : Bytes)
    (size : random.length = 10) (req : Request) (mediaID : Bytes) :
    Prog (Except Transport.Response Response) :=
  match (imageServer doRequest clock random size req).2 with
  | .error refused => pure (.error refused)
  | .ok username => .ok <$> handleDelete (some username) mediaID

/-- The image server on `GET /media/{media_id}`: the refusal of a middleware, or the response
of `handleDownload` as the validated user. -/
def downloadRoute (svc : ImageService) (transport : HTTPTransportConfig)
    (doRequest : Request → Option Transport.Response) (clock : Int) (random : Bytes)
    (size : random.length = 10) (req : Request) (fileID widthStr : Bytes) :
    Prog (Except Transport.Response Response) :=
  match (imageServer doRequest clock random size req).2 with
  | .error refused => pure (.error refused)
  | .ok username => .ok <$> handleDownload svc transport (some username) fileID widthStr

theorem Prog.run_map {α β : Type} (f : α → β) (x : Prog α) (repos : Repos) :
    (f <$> x).run repos = (f (x.run repos).1, (x.run repos).2) :=
  Prog.run_bind x (fun value => pure (f value)) repos

namespace BlobMediaService

open ServiceM

theorem exec_delete_invalid (caller : Caller) {mediaID : BlobID} {repos : Repos} {body : Bytes}
    {err : ServiceError} (found : repos.meta mediaID = some body)
    (invalid : newMediaMetaFromBlob body = .error err) :
    (delete caller mediaID).exec repos = (.error err, repos) := by
  simp [delete, exec_bind, exec_fetchMeta_of_some found, invalid]

/-- A caller who does not own a media gets one error from `Delete` and `Fetch`, and changes
nothing. -/
theorem refused_of_not_owns {caller : Caller} {repos : Repos} {mediaID : BlobID}
    (foreign : ¬ Owns caller repos mediaID) :
    ∃ err, (delete caller mediaID).exec repos = (.error err, repos) ∧
      ∀ sha256, (fetch sha256 caller mediaID).exec repos = (.error err, repos) := by
  cases found : repos.meta mediaID with
  | none => exact ⟨_, exec_delete_absent caller found, fun sha256 => exec_fetch_absent sha256 caller found⟩
  | some body =>
    cases decoded : newMediaMetaFromBlob body with
    | error err =>
      exact ⟨err, exec_delete_invalid caller found decoded,
        fun sha256 => exec_fetch_invalid sha256 caller found decoded⟩
    | ok meta =>
      have other : caller ≠ some meta.owner := fun owner => foreign ⟨body, meta, found, decoded, owner⟩
      exact ⟨_, exec_delete_unauthorized found decoded other,
        fun sha256 => exec_fetch_unauthorized sha256 found decoded other⟩

end BlobMediaService

/-- A validated user who does not own a media changes nothing through `handleDelete` and gets an
error, and no media, from `handleDownload`. -/
theorem handlers_of_not_owns (svc : ImageService) (transport : HTTPTransportConfig) {username : Bytes}
    {repos : Repos} {mediaID : Bytes} (widthStr : Bytes)
    (foreign : ¬ Owns (some username) repos (normalizeCrockfordB32LC mediaID)) :
    ((handleDelete (some username) mediaID).run repos).2 = repos ∧
      ∃ status, (handleDownload svc transport (some username) mediaID widthStr).run repos =
        (.error status, repos) := by
  by_cases named : mediaID = []
  · exact ⟨by simp [handleDelete, named], statusBadRequest, by simp [handleDownload, named]⟩
  obtain ⟨err, delete, fetch⟩ := BlobMediaService.refused_of_not_owns foreign
  obtain ⟨imageDelete, imageFetch⟩ := exec_image_of_refused delete fetch svc
  refine ⟨by rw [run_handleDelete _ named, imageDelete], ?_⟩
  rw [run_handleDownload svc transport _ named]
  cases queryWidth widthStr with
  | none => exact ⟨statusBadRequest, rfl⟩
  | some width => exact ⟨errorStatus err, by simp only [imageFetch]⟩

/-- The image server serves a request as a user only when the auth service validates its header
to a token of that user. -/
theorem imageServer_ok {svc : AuthService} {now clock' : Int} {random' : Bytes} {size' : random'.length = 10}
    {clock : Int} {random : Bytes} {size : random.length = 10} {req : Request} {username : Bytes}
    (served : (imageServer (fun sent => some (authServer svc now clock' random' size' sent).2) clock random size
      req).2 = .ok username) :
    ∃ token, svc.validateToken now (Logging.trimSpace (cutPrefix req.authorization (ascii "Bearer")).1) =
      .ok token ∧ token.username = username := by
  rw [imageServer_delivered] at served
  split_ifs at served
  cases valid : svc.validateToken now (Logging.trimSpace (cutPrefix req.authorization (ascii "Bearer")).1) with
  | error err => simp [valid] at served
  | ok token => exact ⟨token, rfl, by simpa [valid] using served⟩

/-- With the validation requests delivered to the auth server, a request to the image server
either changes no repository through `DELETE` and gets no media through `GET`, or the auth service
validates its `Authorization` header, with `Bearer` cut off and the spaces trimmed, to a token
that names the media's owner. -/
theorem image_routes_owner_only (svc : AuthService) (now clock' : Int) {random' : Bytes}
    (size' : random'.length = 10) {doRequest : Request → Option Transport.Response}
    (delivered : ∀ sent, doRequest sent = some (authServer svc now clock' random' size' sent).2)
    (clock : Int) {random : Bytes} (size : random.length = 10) (image : ImageService)
    (transport : HTTPTransportConfig) (req : Request) (mediaID widthStr : Bytes) (repos : Repos) :
    (((deleteRoute doRequest clock random size req mediaID).run repos).2 = repos ∧
      ∀ headers body, ((downloadRoute image transport doRequest clock random size req mediaID widthStr).run
        repos).1 ≠ .ok (.ok headers body)) ∨
    ∃ token, svc.validateToken now (Logging.trimSpace (cutPrefix req.authorization (ascii "Bearer")).1) =
      .ok token ∧ Owns (some token.username) repos (normalizeCrockfordB32LC mediaID) := by
  rw [show doRequest = fun sent => some (authServer svc now clock' random' size' sent).2 from funext delivered]
  cases outcome : (imageServer (fun sent => some (authServer svc now clock' random' size' sent).2) clock random
      size req).2 with
  | error refused => exact .inl (by simp [deleteRoute, downloadRoute, outcome])
  | ok username =>
    obtain ⟨token, valid, rfl⟩ := imageServer_ok outcome
    by_cases owner : Owns (some token.username) repos (normalizeCrockfordB32LC mediaID)
    · exact .inr ⟨token, valid, owner⟩
    · obtain ⟨unchanged, status, download⟩ := handlers_of_not_owns image transport widthStr owner
      exact .inl (by simp [deleteRoute, downloadRoute, outcome, Prog.run_map, unchanged, download])

theorem image_routes_owner_only_alice :
    (List.replicate 10 (0 : Byte)).length = 10 ∧
    (∀ sent, some (authServer ⟨id, ⟨fun _ => [0, 0], fun _ signature => signature == [0, 0], 2⟩, 3600, id, some⟩
        60 0 (List.replicate 10 0) rfl sent).2 =
      some (authServer ⟨id, ⟨fun _ => [0, 0], fun _ signature => signature == [0, 0], 2⟩, 3600, id, some⟩
        60 0 (List.replicate 10 0) rfl sent).2) ∧
    ((((deleteRoute (fun sent => some (authServer
        ⟨id, ⟨fun _ => [0, 0], fun _ signature => signature == [0, 0], 2⟩, 3600, id, some⟩
        60 0 (List.replicate 10 0) rfl sent).2) 0 (List.replicate 10 0) rfl ⟨ascii "Bearer abc", []⟩
        (ascii "m")).run Repos.empty).2 = Repos.empty ∧
      ∀ headers body, ((downloadRoute
        ⟨.default, .default, ⟨fun _ data => .ok data, fun _ _ data => data, fun _ data => .ok data⟩, id⟩ .default
        (fun sent => some (authServer ⟨id, ⟨fun _ => [0, 0], fun _ signature => signature == [0, 0], 2⟩, 3600, id,
          some⟩ 60 0 (List.replicate 10 0) rfl sent).2) 0 (List.replicate 10 0) rfl ⟨ascii "Bearer abc", []⟩
        (ascii "m") []).run Repos.empty).1 ≠ .ok (.ok headers body)) ∨
    ∃ token, AuthService.validateToken
        ⟨id, ⟨fun _ => [0, 0], fun _ signature => signature == [0, 0], 2⟩, 3600, id, some⟩ 60
        (Logging.trimSpace (cutPrefix (ascii "Bearer abc") (ascii "Bearer")).1) = .ok token ∧
      Owns (some token.username) Repos.empty (normalizeCrockfordB32LC (ascii "m"))) :=
  ⟨rfl, fun _ => rfl, @image_routes_owner_only _ 60 0 (List.replicate 10 0) rfl _ (fun _ => rfl) 0
    (List.replicate 10 0) rfl ⟨.default, .default, ⟨fun _ data => .ok data, fun _ _ data => data,
      fun _ data => .ok data⟩, id⟩ .default ⟨ascii "Bearer abc", []⟩ (ascii "m") [] Repos.empty⟩

end Homecase
