import Homecase.Util.Json
import Homecase.Util.Crockford

namespace Homecase

/-! # Blobs, media and their metadata

The types of `internal/domain`. A media's content hash is the encoded SHA-256 of its bytes and
its id the encoded SHA-256 of `hash ‖ filename ‖ mimeType ‖ owner` (`MediaMeta.update`). The
digest itself is a parameter `sha256`: nothing here depends on which function it is.
Metadata is stored as the JSON document `json.Marshal` writes (`MediaMeta.toJson`), and read
back with `json.Unmarshal` (`MediaMeta.ofJson`).
-/

/-- `domain.BlobID`, and `domain.MediaID`, its alias. -/
abbrev BlobID := Bytes

/-- The errors of the services, by the sentinel or the kind `errors.Is` tells apart. -/
inductive ServiceError where
  /-- `domain.ErrMediaTooLarge`. -/
  | mediaTooLarge
  /-- `domain.ErrUnauthorized`. -/
  | unauthorized
  /-- A filesystem call that found no file: `os.ErrNotExist`. -/
  | notFound
  /-- Any other failure of a filesystem call. -/
  | io
  /-- `NewMediaMetaFromBlob` could not unmarshal the stored metadata. -/
  | invalidMeta
  /-- `domain.ErrImageTooLarge`. -/
  | imageTooLarge
  /-- `domain.ErrImageTypeNotSupported`. -/
  | imageTypeNotSupported
  /-- `domain.ErrImageTypeMismatch`. -/
  | imageTypeMismatch
  /-- `ErrUnknownInterpolator`. -/
  | unknownInterpolator
  /-- `ErrUnsupportedMIMEType`, of a MIME type with no decoder. -/
  | unsupportedMIMEType
  /-- An image that its decoder or encoder refused. -/
  | imageCodec
  deriving DecidableEq, Repr

structure Blob where
  id : BlobID
  body : Bytes
  deriving DecidableEq, Repr

structure MediaMeta where
  filename : Bytes
  id : BlobID
  hash : Bytes
  size : Int
  owner : Bytes
  mimeType : Bytes
  deriving DecidableEq, Repr, Inhabited

/-- `domain.Media`: its fields are unexported, so a caller holds either a result of `NewMedia`
or the zero value. -/
structure Media where
  data : Bytes
  meta : MediaMeta
  deriving DecidableEq, Repr, Inhabited

section Digest

variable (sha256 : Bytes → Bytes)

/-- `MediaMeta.update`: hash, size and id recomputed from the content. -/
def MediaMeta.update (meta : MediaMeta) (data : Bytes) : MediaMeta :=
  let hash := encodeCrockfordB32LC (sha256 data)
  { meta with
    hash := hash
    size := data.length
    id := encodeCrockfordB32LC (sha256 (hash ++ meta.filename ++ meta.mimeType ++ meta.owner)) }

def newMedia (data : Bytes) (meta : MediaMeta) : Media := ⟨data, meta.update sha256 data⟩

/-- The `domain.Media` values a caller can build. -/
inductive Media.Built : Media → Prop
  | newMedia (data : Bytes) (meta : MediaMeta) : Media.Built (newMedia sha256 data meta)
  | zero : Media.Built default

end Digest

namespace Media

def id (media : Media) : BlobID := media.meta.id

def hash (media : Media) : Bytes := media.meta.hash

def owner (media : Media) : Bytes := media.meta.owner

def mimeType (media : Media) : Bytes := media.meta.mimeType

def size (media : Media) : Int := media.data.length

/-- `Media.AsBlob`: the content under its hash. -/
def asBlob (media : Media) : Blob := ⟨media.hash, media.data⟩

end Media

namespace MediaMeta

/-- `json.Marshal` of a `MediaMeta`: its fields in declaration order under their `json` tags. -/
def toJson (meta : MediaMeta) : Bytes :=
  [0x7B] ++ ascii "\"filename\":" ++ Json.quote meta.filename ++
    ascii ",\"id\":" ++ Json.quote meta.id ++
    ascii ",\"hash\":" ++ Json.quote meta.hash ++
    ascii ",\"size\":" ++ Json.formatInt meta.size ++
    ascii ",\"owner\":" ++ Json.quote meta.owner ++
    ascii ",\"mimeType\":" ++ Json.quote meta.mimeType ++ [0x7D]

/-- `MediaMeta.AsBlob`: the JSON document under the media id. -/
def asBlob (meta : MediaMeta) : Blob := ⟨meta.id, meta.toJson⟩

/-- The metadata once every string field has passed through JSON. -/
def sanitize (meta : MediaMeta) : MediaMeta :=
  { meta with
    filename := toValidUTF8 meta.filename
    id := toValidUTF8 meta.id
    hash := toValidUTF8 meta.hash
    owner := toValidUTF8 meta.owner
    mimeType := toValidUTF8 meta.mimeType }

end MediaMeta

namespace Json

/-- The bytes `lit` at the head of the input, and the input after them. -/
def expect : Bytes → Bytes → Option Bytes
  | [], input => some input
  | b :: lit, c :: input => if b = c then expect lit input else none
  | _ :: _, [] => none

/-- A string literal at the head of the input. -/
def parseQuoted (input : Bytes) : Option (Bytes × Bytes) := expect [0x22] input >>= parseString

/-- A member `key` (its quoted name and colon, with the comma before it) holding a string. -/
def stringMember (key input : Bytes) : Option (Bytes × Bytes) := expect key input >>= parseQuoted

/-- `Option.some_bind` for the binds of the readers' `do` blocks, without unfolding them. -/
theorem some_bind_eq {α β : Type} (a : α) (f : α → Option β) : (some a >>= f) = f a := rfl

theorem expect_append (lit rest : Bytes) : expect lit (lit ++ rest) = some rest := by
  induction lit with
  | nil => rfl
  | cons b lit ih => simp [expect, ih]

theorem parseQuoted_quote (s rest : Bytes) :
    parseQuoted (quote s ++ rest) = some (toValidUTF8 s, rest) := by
  simpa [parseQuoted, quote, expect] using parseString_quote s rest

theorem stringMember_quote (key s rest : Bytes) :
    stringMember key (key ++ (quote s ++ rest)) = some (toValidUTF8 s, rest) := by
  simp [stringMember, expect_append, parseQuoted_quote]

end Json

namespace MediaMeta

/-- `json.Unmarshal` into a `MediaMeta`, on documents laid out as `json.Marshal` writes them. -/
def ofJson (input : Bytes) : Option MediaMeta := do
  let input ← Json.expect [0x7B] input
  let (filename, input) ← Json.stringMember (ascii "\"filename\":") input
  let (id, input) ← Json.stringMember (ascii ",\"id\":") input
  let (hash, input) ← Json.stringMember (ascii ",\"hash\":") input
  let input ← Json.expect (ascii ",\"size\":") input
  let (size, input) ← Json.parseInt input
  let (owner, input) ← Json.stringMember (ascii ",\"owner\":") input
  let (mimeType, input) ← Json.stringMember (ascii ",\"mimeType\":") input
  let input ← Json.expect [0x7D] input
  if input = [] then some ⟨filename, id, hash, size, owner, mimeType⟩ else none

/-- Metadata read back from the document `json.Marshal` wrote is the metadata with every string
field made valid UTF-8. -/
theorem ofJson_toJson (meta : MediaMeta) : ofJson meta.toJson = some meta.sanitize := by
  have ends : ∀ rest, Json.EndsNumber (ascii ",\"owner\":" ++ rest) := by
    intro rest b member
    rw [show ascii ",\"owner\":" = 0x2C :: ascii "\"owner\":" from rfl] at member
    cases member
    decide
  simp only [toJson, ofJson, List.append_assoc, Json.some_bind_eq, Json.expect_append,
    Json.stringMember_quote, Json.parseInt_formatInt _ (ends _)]
  rfl

end MediaMeta

def newMediaMetaFromBlob (body : Bytes) : Except ServiceError MediaMeta :=
  match MediaMeta.ofJson body with
  | some meta => .ok meta
  | none => .error .invalidMeta

theorem newMediaMetaFromBlob_toJson (meta : MediaMeta) :
    newMediaMetaFromBlob meta.toJson = .ok meta.sanitize := by
  simp [newMediaMetaFromBlob, MediaMeta.ofJson_toJson]

end Homecase
