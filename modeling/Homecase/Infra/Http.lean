import Homecase.Util.Uuid
import Homecase.Util.Crockford
import Homecase.Infra.Logging
import Homecase.Auth.Token

namespace Homecase

/-! # Requests between the two services

Both servers run their handlers inside `TracingMiddleware`, which takes the trace id from the
`X-Request-ID` header or makes one: a version 7 UUID in Crockford base 32. A version 7 UUID starts
with the time in milliseconds, and the encoding keeps the order of byte strings of one length, so
trace ids made at a later millisecond sort after earlier ones, whatever their random bits
(`getTraceID_order`). Two of them are equal exactly when they share the millisecond, modulo
2^48, and the 74 random bits the version and the variant leave (`getTraceID_eq_iff`).

The image service guards its routes with `AuthorizingMiddleware`. It sends the `Authorization`
header as it came to the auth service's `/auth/validate` through `HTTPClient.Validate`, with the
trace id, and serves the request as the user named in the body of a 200 answer. The auth service
cuts `Bearer` off the header, trims the spaces and validates the token. So a request reaches an
image handler exactly when `ValidateToken` accepts its header so cut and trimmed, as the user the
token names, and the auth service logs it under the image service's trace id
(`authorized_request`).

`ListenAndServe` turns the configured timeouts into `time.Duration`s by an `int64` product with
`time.Second`, which wraps beyond about 292 years (`durationOfSeconds_eq_iff`).
-/

namespace Transport

structure Response where
  status : Nat
  body : Bytes
  deriving DecidableEq, Repr

/-- `http.StatusText` of the statuses these handlers send. -/
def statusText (status : Nat) : Bytes :=
  if status = 400 then ascii "Bad Request"
  else if status = 401 then ascii "Unauthorized"
  else if status = 409 then ascii "Conflict"
  else if status = 500 then ascii "Internal Server Error"
  else []

/-- `http.Error(w, http.StatusText(status), status)`: the text and a newline. -/
def httpError (status : Nat) : Response := ⟨status, statusText status ++ [0x0A]⟩

/-- `getTraceID` of `TracingMiddleware`: the `X-Request-ID` header when it is not empty, else a new
version 7 UUID in Crockford base 32, made at `now` from ten random bytes. -/
def getTraceID (requestID : Bytes) (now : Int) (random : Bytes) (size : random.length = 10) : Bytes :=
  if requestID ≠ [] then requestID
  else
    match UUID.new uuidV7 now random size with
    | .ok uuid => encodeCrockfordB32LC uuid.bytes
    | .error _ => []

theorem getTraceID_generated (now : Int) {random : Bytes} (size : random.length = 10) :
    getTraceID [] now random size = encodeCrockfordB32LC (UUID.generateUUIDv7 now random size).bytes := by
  simp [getTraceID, UUID.new, uuidV7]

theorem byteStringBits_append (front back : Bytes) :
    byteStringBits (front ++ back) = byteStringBits front ++ byteStringBits back :=
  List.flatMap_append _ _ _

theorem byteStringBits_timestamp (t : Nat) :
    byteStringBits [lowByte ((t : Int) / 2 ^ 40), lowByte ((t : Int) / 2 ^ 32), lowByte ((t : Int) / 2 ^ 24),
      lowByte ((t : Int) / 2 ^ 16), lowByte ((t : Int) / 2 ^ 8), lowByte t] = natBits 48 t := by
  have byte (k : Nat) : natBits 8 (lowByte ((t : Int) / 2 ^ k)).val = natBits 8 (t / 2 ^ k) := by
    rw [show ((t : Int) / 2 ^ k) = ((t / 2 ^ k : Nat) : Int) by push_cast; rfl, lowByte_ofNat]
    exact natBits_mod le_rfl _
  have last : natBits 8 (lowByte t).val = natBits 8 t := by
    rw [lowByte_ofNat]
    exact natBits_mod le_rfl _
  rw [(natBits_add 8 40 t : natBits 48 t = _), (natBits_add 8 32 t : natBits 40 t = _),
    (natBits_add 8 24 t : natBits 32 t = _), (natBits_add 8 16 t : natBits 24 t = _),
    (natBits_add 8 8 t : natBits 16 t = _)]
  simp only [byteStringBits_cons, byteStringBits_nil, List.append_nil, byte, last]

/-- The bits of a version 7 UUID are the time followed by eighty bits that do not depend on it. -/
theorem bitsValue_generateUUIDv7 {now : Int} (lower : 0 ≤ now) (upper : now < 2 ^ 48) {random : Bytes}
    (size : random.length = 10) :
    ∃ rest : List Bool, rest.length = 80 ∧
      byteStringBits (UUID.generateUUIDv7 now random size).bytes = natBits 48 now.toNat ++ rest := by
  obtain ⟨t, rfl⟩ := Int.eq_ofNat_of_zero_le lower
  refine ⟨_, ?_, by rw [UUID.generateUUIDv7, byteStringBits_append, byteStringBits_timestamp, Int.toNat_ofNat]⟩
  simp [size]

/-- Trace ids made at a later millisecond sort after earlier ones, whatever their random bytes. -/
theorem getTraceID_order {now now' : Int} (lower : 0 ≤ now) (later : now < now') (upper : now' < 2 ^ 48)
    {random random' : Bytes} (size : random.length = 10) (size' : random'.length = 10) :
    List.Lex (· < ·) (getTraceID [] now random size) (getTraceID [] now' random' size') := by
  obtain ⟨rest, length, bits⟩ := bitsValue_generateUUIDv7 lower (by omega) size
  obtain ⟨rest', length', bits'⟩ := bitsValue_generateUUIDv7 (by omega) upper size'
  rw [getTraceID_generated, getTraceID_generated]
  apply encodeCrockfordB32LC_lex (by rw [(UUID.generateUUIDv7 _ _ _).size, (UUID.generateUUIDv7 _ _ _).size])
  rw [bits, bits', lex_iff_bitsValue (by simp [length, length']), bitsValue_append, bitsValue_append,
    bitsValue_natBits, bitsValue_natBits, length, length']
  have small := bitsValue_lt rest
  have small' := bitsValue_lt rest'
  rw [length] at small
  rw [length'] at small'
  have times : now.toNat % 2 ^ 48 < now'.toNat % 2 ^ 48 := by omega
  have step := Nat.mul_le_mul_right (2 ^ 80) times
  rw [Nat.succ_mul] at step
  omega

theorem getTraceID_order_next_millisecond :
    (0 : Int) ≤ 1700000000000 ∧ (1700000000000 : Int) < 1700000000001 ∧ (1700000000001 : Int) < 2 ^ 48 ∧
      List.Lex (· < ·) (getTraceID [] 1700000000000 (List.replicate 10 0xFF) rfl)
        (getTraceID [] 1700000000001 (List.replicate 10 0) rfl) :=
  ⟨by decide, by decide, by decide, @getTraceID_order 1700000000000 1700000000001 (by decide) (by decide) (by decide)
    (List.replicate 10 0xFF) (List.replicate 10 0) rfl rfl⟩

theorem getTraceID_of_ne_nil {requestID : Bytes} (given : requestID ≠ []) (now : Int) {random : Bytes}
    (size : random.length = 10) : getTraceID requestID now random size = requestID :=
  if_pos given

/-- A trace id is never empty: the header's when it has one, else twenty-six letters. -/
theorem getTraceID_ne_nil (requestID : Bytes) (now : Int) {random : Bytes} (size : random.length = 10) :
    getTraceID requestID now random size ≠ [] := by
  by_cases given : requestID = []
  · have letters := encodeCrockfordB32LC_length (UUID.generateUUIDv7 now random size).bytes
    rw [(UUID.generateUUIDv7 now random size).size] at letters
    rw [given, getTraceID_generated]
    exact List.ne_nil_of_length_pos (by rw [letters]; decide)
  · rwa [getTraceID_of_ne_nil given]

theorem getD_drop (l : Bytes) (n i : Nat) : (l.drop n).getD i 0 = l.getD (n + i) 0 := by
  simp only [List.getD_eq_getElem?_getD, List.getElem?_drop]

/-- Two generated trace ids are equal exactly when they were made at the same millisecond, modulo
2^48, from random bytes that agree but in the bits the version and the variant overwrite. -/
theorem getTraceID_eq_iff (now now' : Int) {random random' : Bytes} (size : random.length = 10)
    (size' : random'.length = 10) :
    getTraceID [] now random size = getTraceID [] now' random' size' ↔
      now % 2 ^ 48 = now' % 2 ^ 48 ∧ (random.getD 0 0).val % 16 = (random'.getD 0 0).val % 16 ∧
        (random.getD 2 0).val % 64 = (random'.getD 2 0).val % 64 ∧
        ∀ i, i ≠ 0 → i ≠ 2 → random.getD i 0 = random'.getD i 0 := by
  rw [getTraceID_generated, getTraceID_generated]
  obtain ⟨time, version, variant, kept⟩ := generateUUIDv7_layout now random size
  obtain ⟨time', version', variant', kept'⟩ := generateUUIDv7_layout now' random' size'
  constructor
  · intro encoded
    have bytes := encodeCrockfordB32LC_inj (by rw [UUID.size, UUID.size]) encoded
    rw [bytes] at time version variant kept
    refine ⟨time.symm.trans time', by omega, by omega, fun i first third => ?_⟩
    rw [← kept i first third, kept' i first third]
  · rintro ⟨sameTime, sameVersion, sameVariant, sameKept⟩
    congr 1
    have sizes : (UUID.generateUUIDv7 now random size).bytes.length =
        (UUID.generateUUIDv7 now' random' size').bytes.length := by rw [UUID.size, UUID.size]
    have front : (UUID.generateUUIDv7 now random size).bytes.take 6 =
        (UUID.generateUUIDv7 now' random' size').bytes.take 6 :=
      bigEndian_injective (by simp only [List.length_take, sizes])
        (Int.ofNat.inj (time.trans (sameTime.trans time'.symm)))
    have back : ∀ i, ((UUID.generateUUIDv7 now random size).bytes.drop 6).getD i 0 =
        ((UUID.generateUUIDv7 now' random' size').bytes.drop 6).getD i 0 := by
      intro i
      rw [getD_drop, getD_drop]
      by_cases first : i = 0
      · subst first
        exact Fin.ext (by rw [version, version']; omega)
      by_cases third : i = 2
      · subst third
        exact Fin.ext (by rw [variant, variant']; omega)
      rw [kept i first third, kept' i first third, sameKept i first third]
    rw [← List.take_append_drop 6 (UUID.generateUUIDv7 now random size).bytes,
      ← List.take_append_drop 6 (UUID.generateUUIDv7 now' random' size').bytes, front]
    congr 1
    refine List.ext_getElem (by simp only [List.length_drop, sizes]) fun i inside inside' => ?_
    rw [← List.getD_eq_getElem _ 0 inside, ← List.getD_eq_getElem _ 0 inside']
    exact back i

theorem getTraceID_eq_high_nibble :
    (List.replicate 10 (0 : Byte)).length = 10 ∧ ((0xF0 : Byte) :: List.replicate 9 0).length = 10 ∧
      (getTraceID [] 1700000000000 (List.replicate 10 0) rfl =
          getTraceID [] (1700000000000 + 2 ^ 48) ((0xF0 : Byte) :: List.replicate 9 0) rfl ↔
        (1700000000000 : Int) % 2 ^ 48 = (1700000000000 + 2 ^ 48) % 2 ^ 48 ∧
          ((List.replicate 10 (0 : Byte)).getD 0 0).val % 16 = (((0xF0 : Byte) :: List.replicate 9 0).getD 0 0).val % 16 ∧
          ((List.replicate 10 (0 : Byte)).getD 2 0).val % 64 = (((0xF0 : Byte) :: List.replicate 9 0).getD 2 0).val % 64 ∧
          ∀ i, i ≠ 0 → i ≠ 2 → (List.replicate 10 (0 : Byte)).getD i 0 = ((0xF0 : Byte) :: List.replicate 9 0).getD i 0) :=
  ⟨rfl, rfl, @getTraceID_eq_iff 1700000000000 (1700000000000 + 2 ^ 48) (List.replicate 10 0)
    ((0xF0 : Byte) :: List.replicate 9 0) rfl rfl⟩

/-- The headers the middlewares and handlers read, as `Header.Get` returns them: empty when
unset. -/
structure Request where
  authorization : Bytes
  requestID : Bytes
  deriving DecidableEq, Repr

/-- `strings.CutPrefix`: the string without the prefix, and whether it was there. -/
def cutPrefix (s pfx : Bytes) : Bytes × Bool :=
  if pfx.isPrefixOf s then (s.drop pfx.length, true) else (s, false)

/-- `HTTPTransport.handleValidate` of the auth service: the response it writes. The error it
returns only goes to its log line. -/
def handleValidate (svc : AuthService) (now : Int) (authHeader : Bytes) : Response :=
  if authHeader = [] then httpError 400
  else
    let tokenString := Logging.trimSpace (cutPrefix authHeader (ascii "Bearer")).1
    match svc.validateToken now tokenString with
    | .error _ => httpError 401
    | .ok token => ⟨200, token.username⟩

/-- The auth server on `POST /auth/validate`: the trace id `TracingMiddleware` puts in the
context, and the response of `HandleValidate`. -/
def authServer (svc : AuthService) (now clock : Int) (random : Bytes) (size : random.length = 10)
    (req : Request) : Bytes × Response :=
  (getTraceID req.requestID clock random size, handleValidate svc now req.authorization)

/-- The error `HTTPClient.Validate` returns: `post` when `Do` fails. -/
inductive ClientError where
  | post
  deriving DecidableEq, Repr

/-- The request `HTTPClient.Validate` sends: the token as `Authorization`, and the context's
trace id, if it has one, as `X-Request-ID`. -/
def validationRequest (traceID : Option Bytes) (token : Bytes) : Request := ⟨token, traceID.getD []⟩

/-- `HTTPClient.Validate`, with `Do` of the client as `doRequest` (`none` when it fails): the body
of a 200 answer as the username, and no username for any other status. -/
def validate (doRequest : Request → Option Response) (traceID : Option Bytes) (token : Bytes) :
    Except ClientError (Bytes × Bool) :=
  match doRequest (validationRequest traceID token) with
  | none => .error .post
  | some resp => if resp.status ≠ 200 then .ok ([], false) else .ok (resp.body, true)

/-- `AuthorizingMiddleware`: the response it writes, or the username it serves the request as. -/
def authorizingMiddleware (validate : Bytes → Except ClientError (Bytes × Bool)) (token : Bytes) :
    Except Response Bytes :=
  if token = [] then .error (httpError 400)
  else
    match validate token with
    | .error _ => .error (httpError 401)
    | .ok (username, ok) => if !ok then .error (httpError 401) else .ok username

/-- The image server in front of its routes: `TracingMiddleware`, then `AuthorizingMiddleware`
with the `HTTPClient` of the auth service, asked in the request's context. -/
def imageServer (doRequest : Request → Option Response) (clock : Int) (random : Bytes)
    (size : random.length = 10) (req : Request) : Bytes × Except Response Bytes :=
  let traceID := getTraceID req.requestID clock random size
  (traceID, authorizingMiddleware (validate doRequest (some traceID)) req.authorization)

/-- What the image server does with a request when its validation request reaches the auth
server. -/
theorem imageServer_delivered (svc : AuthService) (now clock' : Int) {random' : Bytes}
    (size' : random'.length = 10) (clock : Int) {random : Bytes} (size : random.length = 10)
    (req : Request) :
    (imageServer (fun sent => some (authServer svc now clock' random' size' sent).2) clock random size req).2 =
      if req.authorization = [] then .error (httpError 400)
      else match svc.validateToken now (Logging.trimSpace (cutPrefix req.authorization (ascii "Bearer")).1) with
        | .ok token => .ok token.username
        | .error _ => .error (httpError 401) := by
  simp only [imageServer, authorizingMiddleware, validate]
  by_cases empty : req.authorization = []
  · simp only [if_pos empty]
  · simp only [if_neg empty, authServer, handleValidate, validationRequest]
    cases svc.validateToken now _ <;> rfl

/-- With the validation request delivered to the auth server, the image server refuses a request
with no `Authorization` header with 400, serves it as the user of the token `ValidateToken`
accepts once `Bearer` is cut off the header and the spaces are trimmed, and refuses it with 401
when the token fails. Its trace id is not empty, and the auth server runs the validation under
it. -/
theorem authorized_request (svc : AuthService) (now clock' : Int) {random' : Bytes}
    (size' : random'.length = 10) {doRequest : Request → Option Response}
    (delivered : ∀ sent, doRequest sent = some (authServer svc now clock' random' size' sent).2)
    (clock : Int) {random : Bytes} (size : random.length = 10) (req : Request) :
    ∃ traceID, traceID ≠ [] ∧
      imageServer doRequest clock random size req =
        (traceID,
          if req.authorization = [] then .error (httpError 400)
          else match svc.validateToken now (Logging.trimSpace (cutPrefix req.authorization (ascii "Bearer")).1) with
            | .ok token => .ok token.username
            | .error _ => .error (httpError 401)) ∧
      (authServer svc now clock' random' size' (validationRequest (some traceID) req.authorization)).1 =
        traceID := by
  have named := getTraceID_ne_nil req.requestID clock size
  have served := imageServer_delivered svc now clock' size' clock size req
  rw [show doRequest = fun sent => some (authServer svc now clock' random' size' sent).2 from funext delivered]
  exact ⟨_, named, Prod.ext rfl served, getTraceID_of_ne_nil named clock' size'⟩

theorem authorized_request_bearer :
    (∀ sent, some (authServer ⟨id, ⟨fun _ => [0, 0], fun _ signature => signature == [0, 0], 2⟩, 3600, id, some⟩
        60 0 (List.replicate 10 0) rfl sent).2 =
      some (authServer ⟨id, ⟨fun _ => [0, 0], fun _ signature => signature == [0, 0], 2⟩, 3600, id, some⟩
        60 0 (List.replicate 10 0) rfl sent).2) ∧
    ∃ traceID, traceID ≠ [] ∧
      imageServer (fun sent => some (authServer
          ⟨id, ⟨fun _ => [0, 0], fun _ signature => signature == [0, 0], 2⟩, 3600, id, some⟩
          60 0 (List.replicate 10 0) rfl sent).2) 0 (List.replicate 10 0) rfl ⟨ascii "Bearer abc", []⟩ =
        (traceID,
          if ascii "Bearer abc" = [] then .error (httpError 400)
          else match AuthService.validateToken
              ⟨id, ⟨fun _ => [0, 0], fun _ signature => signature == [0, 0], 2⟩, 3600, id, some⟩ 60
              (Logging.trimSpace (cutPrefix (ascii "Bearer abc") (ascii "Bearer")).1) with
            | .ok token => .ok token.username
            | .error _ => .error (httpError 401)) ∧
      (authServer ⟨id, ⟨fun _ => [0, 0], fun _ signature => signature == [0, 0], 2⟩, 3600, id, some⟩
        60 0 (List.replicate 10 0) rfl (validationRequest (some traceID) (ascii "Bearer abc"))).1 = traceID :=
  ⟨fun _ => rfl, @authorized_request _ 60 0 (List.replicate 10 0) rfl _ (fun _ => rfl) 0 (List.replicate 10 0) rfl _⟩

/-- `ListenAndServe` makes a `durationOfSeconds` of each configured timeout. A configured timeout lasts its number of seconds exactly when it is at most 9223372036
seconds, about 292 years, either way; beyond that the product wraps. -/
theorem durationOfSeconds_eq_iff (seconds : Int) :
    durationOfSeconds seconds = seconds * second ↔ -9223372036 ≤ seconds ∧ seconds ≤ 9223372036 := by
  simp only [durationOfSeconds, Int.bmod, second, Nat.reducePow]
  split <;> omega

/-- `READ_TIMEOUT=18446744074` gives a read timeout of 0.29 seconds. -/
example : durationOfSeconds 18446744074 = 290448384 := by decide

end Transport

end Homecase
