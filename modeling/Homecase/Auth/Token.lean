import Homecase.Domain.Media
import Mathlib.Algebra.Group.Int

namespace Homecase

/-! # Login tokens

`AuthService.Login` looks the user up, compares the SHA-256 of the password with the stored hash,
and returns the base64url encoding of the JSON of an `AuthToken`, followed by the RSA-PSS
signature of that JSON's digest. `ValidateToken` decodes the string, splits off the last
`publicKey.Size()` bytes as the signature, verifies it, unmarshals the payload and checks the
expiry. The username in the token is the one the image service stores and compares as a media's
owner.

RSA-PSS and base64url are parameters with the laws the token code relies on (`AuthService.Sound`).
A token expires `tokenLifetime` after its issue: `TokenDuration` seconds taken as an `int64`
count of nanoseconds, which wraps beyond 9223372036 seconds. The username travels through
`json.Marshal` and `json.Unmarshal`. It comes back with every ill-formed byte replaced by
`U+FFFD` (`validateToken_login`), so usernames that differ only in such bytes get one identity
(`login_identity_collision`).
-/

structure AuthToken where
  username : Bytes
  issuedAt : Int
  expiresAt : Int
  deriving DecidableEq, Repr

namespace AuthToken

/-- `json.Marshal` of an `AuthToken`: its fields in declaration order under their `json` tags. -/
def toJson (token : AuthToken) : Bytes :=
  [0x7B] ++ ascii "\"username\":" ++ Json.quote token.username ++
    ascii ",\"issuedAt\":" ++ Json.formatInt token.issuedAt ++
    ascii ",\"expiresAt\":" ++ Json.formatInt token.expiresAt ++ [0x7D]

/-- `json.Unmarshal` into an `AuthToken`, on documents laid out as `json.Marshal` writes them. -/
def ofJson (input : Bytes) : Option AuthToken := do
  let input ← Json.expect [0x7B] input
  let (username, input) ← Json.stringMember (ascii "\"username\":") input
  let input ← Json.expect (ascii ",\"issuedAt\":") input
  let (issuedAt, input) ← Json.parseInt input
  let input ← Json.expect (ascii ",\"expiresAt\":") input
  let (expiresAt, input) ← Json.parseInt input
  let input ← Json.expect [0x7D] input
  if input = [] then some ⟨username, issuedAt, expiresAt⟩ else none

/-- A token read back from the JSON `json.Marshal` wrote has its username made valid UTF-8. -/
theorem ofJson_toJson (token : AuthToken) :
    ofJson token.toJson = some { token with username := toValidUTF8 token.username } := by
  have comma : ∀ rest, Json.EndsNumber (ascii ",\"expiresAt\":" ++ rest) := by
    intro rest b member
    rw [show ascii ",\"expiresAt\":" = 0x2C :: ascii "\"expiresAt\":" from rfl] at member
    cases member
    decide
  have brace : Json.EndsNumber [0x7D] := by
    intro b member
    cases member
    decide
  simp only [toJson, ofJson, List.append_assoc, Json.some_bind_eq, Json.expect_append,
    Json.stringMember_quote, Json.parseInt_formatInt _ (comma _), Json.parseInt_formatInt _ brace]
  rfl

end AuthToken

/-- The errors of the auth service, by the sentinel `errors.Is` finds. -/
inductive AuthError where
  /-- `domain.ErrUserAlreadyExists`, from the `UNIQUE` constraint on `username`. -/
  | userAlreadyExists
  /-- `domain.ErrInvalidCredentials`. -/
  | invalidCredentials
  /-- `domain.ErrInvalidAuthToken`. -/
  | invalidAuthToken
  deriving DecidableEq, Repr

/-- The `users` table of `SQLiteUserRepository`: the password hash stored under each username,
byte for byte. -/
abbrev UserTable := Bytes → Option Bytes

def UserTable.empty : UserTable := fun _ => none

/-- `time.Second`, in nanoseconds. -/
def second : Int := 1000000000

/-- `time.Duration(seconds * int64(time.Second))`: a product of `int64`s, which wraps. -/
def durationOfSeconds (seconds : Int) : Int := (seconds * second).bmod (2 ^ 64)

/-- The signing key: `rsa.SignPSS` of a SHA-256 digest (with the salt it draws fixed),
`rsa.VerifyPSS` with the public key, and `publicKey.Size()`. -/
structure SigningKey where
  sign : Bytes → Bytes
  verify : Bytes → Bytes → Bool
  size : Nat

/-- What `Login` and `ValidateToken` use of an `AuthService`: SHA-256, the signing key,
`TokenDuration` in seconds, and `base64.URLEncoding`. -/
structure AuthService where
  sha256 : Bytes → Bytes
  key : SigningKey
  tokenDuration : Int
  encode : Bytes → Bytes
  decode : Bytes → Option Bytes

/-- The laws the token code relies on: a signature has the key's size and verifies, and base64url
decoding undoes encoding. -/
structure AuthService.Sound (svc : AuthService) : Prop where
  sign_size : ∀ digest, (svc.key.sign digest).length = svc.key.size
  verify_sign : ∀ digest, svc.key.verify digest (svc.key.sign digest) = true
  decode_encode : ∀ data, svc.decode (svc.encode data) = some data

namespace AuthService

variable (svc : AuthService)

/-- What `expiry.Unix()` adds to the issue time: `time.Duration(s.Config.TokenDuration *
int64(time.Second))` in whole seconds, for a login at a whole second. -/
def tokenLifetime : Int := durationOfSeconds svc.tokenDuration / second

theorem tokenLifetime_of_fits {svc : AuthService} (lower : -9223372036 ≤ svc.tokenDuration)
    (upper : svc.tokenDuration ≤ 9223372036) : svc.tokenLifetime = svc.tokenDuration := by
  simp only [tokenLifetime, durationOfSeconds, second, Int.bmod, Nat.reducePow]
  split <;> omega

example : durationOfSeconds 9223372037 / second < 0 := by decide

/-- `AuthService.RegisterUser`: store the SHA-256 of the password under the username, failing
when the username is taken. -/
def registerUser (users : UserTable) (username password : Bytes) : Except AuthError Unit × UserTable :=
  match users username with
  | some _ => (.error .userAlreadyExists, users)
  | none => (.ok (), fun other => if other = username then some (svc.sha256 password) else users other)

/-- `AuthService.Login` at the Unix time `now`. -/
def login (users : UserTable) (now : Int) (username password : Bytes) : Except AuthError Bytes :=
  match users username with
  | none => .error .invalidCredentials
  | some passwordHash =>
    if svc.sha256 password ≠ passwordHash then .error .invalidCredentials
    else
      let tokenBytes := AuthToken.toJson ⟨username, now, now + svc.tokenLifetime⟩
      .ok (svc.encode (tokenBytes ++ svc.key.sign (svc.sha256 tokenBytes)))

/-- `ValidateToken` at the Unix time `now`. Its check against `rsa.PSSSaltLengthAuto`, which is
zero, never fails and is left out. -/
def validateToken (now : Int) (tokenString : Bytes) : Except AuthError AuthToken :=
  match svc.decode tokenString with
  | none => .error .invalidAuthToken
  | some tokenData =>
    if tokenData.length < svc.key.size then .error .invalidAuthToken
    else
      let payload := tokenData.take (tokenData.length - svc.key.size)
      let signature := tokenData.drop (tokenData.length - svc.key.size)
      if !svc.key.verify (svc.sha256 payload) signature then .error .invalidAuthToken
      else
        match AuthToken.ofJson payload with
        | none => .error .invalidAuthToken
        | some token => if token.expiresAt < now then .error .invalidAuthToken else .ok token

end AuthService

/-- A token `Login` gives a registered user validates, as the token `Login` built with the
username made valid UTF-8, until it expires, and is refused after. -/
theorem login_bind_validateToken {svc : AuthService} (sound : svc.Sound) {users : UserTable}
    {username password : Bytes} (registered : users username = some (svc.sha256 password)) (now later : Int) :
    (svc.login users now username password).bind (svc.validateToken later) =
      if later ≤ now + svc.tokenLifetime then .ok ⟨toValidUTF8 username, now, now + svc.tokenLifetime⟩
      else .error .invalidAuthToken := by
  let tokenBytes := AuthToken.toJson ⟨username, now, now + svc.tokenLifetime⟩
  let signature := svc.key.sign (svc.sha256 tokenBytes)
  have size : (tokenBytes ++ signature).length - svc.key.size = tokenBytes.length := by
    rw [List.length_append, sound.sign_size]; omega
  have payload : (tokenBytes ++ signature).take tokenBytes.length = tokenBytes := List.take_left ..
  have tail : (tokenBytes ++ signature).drop tokenBytes.length = signature := List.drop_left ..
  have long : ¬ (tokenBytes ++ signature).length < svc.key.size := by
    rw [List.length_append, sound.sign_size]; omega
  simp only [AuthService.login, registered, ne_eq, not_true_eq_false, if_false, Except.bind,
    AuthService.validateToken, sound.decode_encode]
  rw [if_neg long, size, payload, tail, sound.verify_sign, Bool.not_true,
    show AuthToken.ofJson tokenBytes = _ from AuthToken.ofJson_toJson _]
  by_cases alive : later ≤ now + svc.tokenLifetime
  · simp only [Bool.false_eq_true, if_false, alive, if_true, not_lt.mpr alive]
  · simp only [Bool.false_eq_true, if_false, alive, if_true, lt_of_not_le alive]

/-- A token of a registered user, validated before it expires, is the token `Login` built with the
username made valid UTF-8. -/
theorem validateToken_login {svc : AuthService} (sound : svc.Sound) {users : UserTable}
    {username password : Bytes} (registered : users username = some (svc.sha256 password))
    {now later : Int} (fresh : later ≤ now + svc.tokenLifetime) :
    (svc.login users now username password).bind (svc.validateToken later) =
      .ok ⟨toValidUTF8 username, now, now + svc.tokenLifetime⟩ := by
  rw [login_bind_validateToken sound registered, if_pos fresh]

/-- Two users registered under the usernames `FF` and `FE`, neither of them UTF-8, with any
password: both log in, and before expiry both tokens validate to the username `U+FFFD`, neither
of the two. -/
theorem login_identity_collision :
    ∀ svc : AuthService, svc.Sound → ∀ (password : Bytes) (now later : Int),
      later ≤ now + svc.tokenLifetime →
      let first := svc.registerUser UserTable.empty [0xFF] password
      let second := svc.registerUser first.2 [0xFE] password
      first.1 = .ok () ∧ second.1 = .ok () ∧
        (svc.login second.2 now [0xFF] password).bind (svc.validateToken later) =
          .ok ⟨Rune.replacement, now, now + svc.tokenLifetime⟩ ∧
        (svc.login second.2 now [0xFE] password).bind (svc.validateToken later) =
          .ok ⟨Rune.replacement, now, now + svc.tokenLifetime⟩ := by
  intro svc sound password now later fresh
  refine ⟨rfl, rfl, ?_, ?_⟩
  · exact validateToken_login sound (by simp [AuthService.registerUser, UserTable.empty]) fresh
  · exact validateToken_login sound (by simp [AuthService.registerUser, UserTable.empty]) fresh

theorem login_identity_collision_two_bytes :
    let svc : AuthService :=
      ⟨id, ⟨fun _ => [0, 0], fun _ signature => signature == [0, 0], 2⟩, 3600, id, some⟩
    let first := svc.registerUser UserTable.empty [0xFF] (ascii "pw")
    let second := svc.registerUser first.2 [0xFE] (ascii "pw")
    first.1 = .ok () ∧ second.1 = .ok () ∧
      (svc.login second.2 0 [0xFF] (ascii "pw")).bind (svc.validateToken 60) =
        .ok ⟨Rune.replacement, 0, 3600⟩ ∧
      (svc.login second.2 0 [0xFE] (ascii "pw")).bind (svc.validateToken 60) =
        .ok ⟨Rune.replacement, 0, 3600⟩ :=
  login_identity_collision _ ⟨fun _ => rfl, fun _ => rfl, fun _ => rfl⟩ _ 0 60 (by decide)

end Homecase
