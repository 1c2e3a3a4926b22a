import Homecase.Util.Strconv

namespace Homecase

/-! # Configuration from the environment

`config.Parse(ctx, cfg, namespace)` checks that `cfg` embeds `EnvConfig` and walks its fields
with `parse`. A nested struct is walked under the concatenation of the `envPrefix` tags around it;
every other field goes to `parseField`. A field without an `env` tag is skipped. For the others,
`parseField` cuts the namespace at each `_` and looks up `<cut>_<prefix><tag>`, longest cut
first, and falls back to the `default` tag; the text found is stored with `SetString`, with
`strconv.Atoi` and `SetInt`, or with `strconv.ParseBool` and `SetBool`. `SetInt` on an `int8`,
`int16` or `int32` field keeps the low bits of the number, as a Go conversion does. The first
failing field ends the walk.

The walk over nested structs is the walk over the list of fields it reaches
(`parse_eq_parseLeaves`), so everything below is proved on that list. Writing every field's value
under its fully qualified name and parsing gives the values back when each fits its field's
width (`parse_round_trip`). What
`Parse` returns depends only on the names it may look up (`parse_congr`). For the image service
this means that `DEMO_IMAGESVC_HTTP_SERVER_ADDR` and `DEMO_HTTP_SERVER_ADDR` are never read: its
listen address sits under the `IMAGE_HTTP_` prefix (`imagesvc_server_addr`).

`Parse` writes into the struct in place; the model returns the writes, in order, each under the
field's prefixed tag. Callers panic on an error, so the writes made before it are left out.
-/

namespace Config

/-- `reflect.Int` to `reflect.Int64`, the integer kinds `parseField` stores with `SetInt`. -/
inductive IntKind where
  | int
  | int8
  | int16
  | int32
  | int64
  deriving DecidableEq, Repr

/-- The width of an integer kind in bits; `int` is 64 bits wide. -/
def IntKind.bits : IntKind → Nat
  | .int | .int64 => 64
  | .int8 => 8
  | .int16 => 16
  | .int32 => 32

/-- The kinds of field `parseField` tells apart; every other kind carries the name `%v` prints
for it. -/
inductive Kind where
  | string
  | int (width : IntKind)
  | bool
  | unsupported (name : Bytes)
  deriving DecidableEq, Repr

/-- A field of a configuration struct, with the struct tags `parse` and `parseField` read. -/
inductive Field where
  /-- The embedded `EnvConfig`, whose one field, `namespace`, has no `env` tag. -/
  | envConfig
  /-- A struct field with its `envPrefix` tag, empty when the tag is missing. -/
  | struct (envPrefix : Bytes) (fields : List Field)
  /-- Any other field with its `env` tag (empty when missing) and its `default` tag. -/
  | value (kind : Kind) (env : Bytes) (default : Option Bytes)

/-- What `parseField` stores, by the setter it calls. -/
inductive Setting where
  | string (value : Bytes)
  | int (value : Int)
  | bool (value : Bool)
  deriving DecidableEq, Repr

/-- The errors of `parseField`: `"%w: %s"` with `ErrVarNotSet`, `"invalid type for %s: %w"` around
a `strconv.NumError`, and `"%w: %s (%v)"` with `ErrUnsupportedVarType`. -/
inductive FieldError where
  | varNotSet (envTag : Bytes)
  | invalidType (envTag : Bytes) (err : Strconv.NumError)
  | unsupportedVarType (envTag : Bytes) (kind : Bytes)
  deriving DecidableEq, Repr

def FieldError.envTag : FieldError → Bytes
  | .varNotSet envTag => envTag
  | .invalidType envTag _ => envTag
  | .unsupportedVarType envTag _ => envTag

/-- The errors of `Parse`: `"get env config: %w"` around `ErrInvalidConfig`, and
`"parse field: %w"` around the error of the field that failed. -/
inductive ParseError where
  | getEnvConfig
  | parseField (err : FieldError)
  deriving DecidableEq, Repr

/-- The name `parseField` looks up on iteration `i`: the first `i` parts of the namespace joined
by `_`, then `_` if that is not empty, then the prefixed tag. -/
def envName (nsParts : List Bytes) (i : Nat) (name : Bytes) : Bytes :=
  let joined := [0x5F].intercalate (nsParts.take i)
  (if joined ≠ [] then joined ++ [0x5F] else joined) ++ name

/-- The loop `for i := len(nsParts); i > 0; i--` of `parseField`, which stops at the first name
that is set. -/
def lookupLoop (lookupEnv : Bytes → Option Bytes) (nsParts : List Bytes) (name : Bytes) :
    Nat → Option Bytes
  | 0 => none
  | i + 1 =>
    match lookupEnv (envName nsParts (i + 1) name) with
    | some envValue => some envValue
    | none => lookupLoop lookupEnv nsParts name i

/-- The `switch fieldType` of `parseField`. -/
def setValue (kind : Kind) (envTag envValue : Bytes) : Except FieldError Setting :=
  match kind with
  | .string => .ok (.string envValue)
  | .int width =>
    match Strconv.atoi envValue with
    | (intValue, none) => .ok (.int (intValue.bmod (2 ^ width.bits)))
    | (_, some err) => .error (.invalidType envTag err)
  | .bool =>
    match Strconv.parseBool envValue with
    | (boolValue, none) => .ok (.bool boolValue)
    | (_, some err) => .error (.invalidType envTag err)
  | .unsupported name => .error (.unsupportedVarType envTag name)

/-- `parseField`; `none` when the field has no `env` tag and is skipped. -/
def parseField (lookupEnv : Bytes → Option Bytes) (envNamespace pfx : Bytes) (kind : Kind) (envTag : Bytes)
    (default : Option Bytes) : Except FieldError (Option Setting) :=
  if envTag = [] then .ok none
  else
    let nsParts := envNamespace.splitOn 0x5F
    match lookupLoop lookupEnv nsParts (pfx ++ envTag) nsParts.length with
    | some envValue => (setValue kind envTag envValue).map some
    | none =>
      match default with
      | none => .error (.varNotSet envTag)
      | some defaultValue => (setValue kind envTag defaultValue).map some

/-- The call of `parseField` in `parse`, with the write it makes and the wrapping of its error. -/
def fieldWrites (lookupEnv : Bytes → Option Bytes) (envNamespace pfx : Bytes) (kind : Kind) (envTag : Bytes)
    (default : Option Bytes) : Except ParseError (List (Bytes × Setting)) :=
  match parseField lookupEnv envNamespace pfx kind envTag default with
  | .ok none => .ok []
  | .ok (some setting) => .ok [(pfx ++ envTag, setting)]
  | .error err => .error (.parseField err)

mutual
/-- `parse`: the fields of one struct in order, stopping at the first error. -/
def parse (lookupEnv : Bytes → Option Bytes) (envNamespace pfx : Bytes) :
    List Field → Except ParseError (List (Bytes × Setting))
  | [] => .ok []
  | field :: rest => do
    let written ← parseOne lookupEnv envNamespace pfx field
    let more ← parse lookupEnv envNamespace pfx rest
    pure (written ++ more)

def parseOne (lookupEnv : Bytes → Option Bytes) (envNamespace pfx : Bytes) :
    Field → Except ParseError (List (Bytes × Setting))
  | .envConfig => fieldWrites lookupEnv envNamespace pfx .string [] none
  | .struct envPrefix fields => parse lookupEnv envNamespace (pfx ++ envPrefix) fields
  | .value kind envTag default => fieldWrites lookupEnv envNamespace pfx kind envTag default
end

/-- The test of `getEnvConfig`: an anonymous field of type `EnvConfig`. -/
def Field.isEnvConfig : Field → Bool
  | .envConfig => true
  | _ => false

def Parse (lookupEnv : Bytes → Option Bytes) (cfg : List Field) (envNamespace : Bytes) :
    Except ParseError (List (Bytes × Setting)) :=
  if cfg.any Field.isEnvConfig then parse lookupEnv envNamespace [] cfg else .error .getEnvConfig

def httpTransportConfig : List Field :=
  [.value .string (ascii "SERVER_ADDR") (some (ascii ":8080")),
    .value (.int .int64) (ascii "READ_HEADER_TIMEOUT") (some (ascii "5")),
    .value (.int .int64) (ascii "READ_TIMEOUT") (some (ascii "5")),
    .value (.int .int64) (ascii "WRITE_TIMEOUT") (some (ascii "5"))]

/-- `Config` of `cmd/imagesvc`: `logging.LoggerConfig` (with its untagged `AppName` and
`OutputHandle`), `mediasvc.MediaConfig`, `imagesvc.ImageConfig`, `imagesvc.HTTPTransportConfig`
(which embeds `http.HTTPTransportConfig`), `authclient.HTTPClientConfig` and
`blob.FileSystemBlobRepositoryConfig`, under their `envPrefix` tags. -/
def imagesvcConfig : List Field :=
  [.envConfig,
    .struct (ascii "LOG_")
      [.value .string [] none,
        .value .string (ascii "OUTPUT") (some (ascii "stderr")),
        .value .string (ascii "LEVEL") (some (ascii "info")),
        .value .string (ascii "FILTER") (some []),
        .value .bool (ascii "JSON") (some (ascii "false")),
        .value (.unsupported (ascii "interface")) [] none],
    .struct (ascii "MEDIA_") [.value (.int .int64) (ascii "MAX_SIZE") (some (ascii "20971520"))],
    .struct (ascii "IMAGE_") [.value .string (ascii "INTERPOLATOR") (some (ascii "catmullrom"))],
    .struct (ascii "IMAGE_HTTP_")
      [.struct [] httpTransportConfig,
        .value .string (ascii "MULTIPART_FILE_NAME") (some (ascii "upload")),
        .value .string (ascii "URL_FILE_ID_PARAM") (some (ascii "media_id")),
        .value .string (ascii "URL_FILE_DOWNLOAD_PARAM") (some (ascii "download")),
        .value .string (ascii "URL_WIDTH_PARAM") (some (ascii "width")),
        .value .bool (ascii "CONTENT_DISPOSITION_DOWNLOAD") (some (ascii "false")),
        .value (.int .int64) (ascii "MULTIPART_FORM_MAX_SIZE") (some (ascii "10485760"))],
    .struct (ascii "AUTH_CLIENT_")
      [.value .string (ascii "AUTH_URL") (some (ascii "http://localhost:8080/auth/validate"))],
    .struct (ascii "BLOB_") [.value .string (ascii "BASEDIR") (some (ascii "var/storage/blob"))]]

/-- `configPrefix` of `cmd/imagesvc`, `strings.ToUpper` of `"demo_imagesvc"`. -/
def configPrefix : Bytes := ascii "DEMO_IMAGESVC"

def testConfig : List Field :=
  [.envConfig,
    .value .string (ascii "STRING_VALUE") (some (ascii "default")),
    .value (.int .int) (ascii "INT_VALUE") (some (ascii "42")),
    .value .bool (ascii "BOOL_VALUE") (some (ascii "true")),
    .value .string [] none,
    .struct [] [.value .string (ascii "NESTED_STRING") (some (ascii "nested-default"))]]

/-- The variables of the test case "reads environment variables". -/
def testEnv (name : Bytes) : Option Bytes :=
  List.lookup name
    [(ascii "STRING_VALUE", ascii "env-value"), (ascii "INT_VALUE", ascii "123"),
      (ascii "BOOL_VALUE", ascii "false"), (ascii "NESTED_STRING", ascii "env-nested")]

/-- A field `parseField` is called on, with the prefix of the structs around it. -/
structure Leaf where
  pfx : Bytes
  kind : Kind
  env : Bytes
  default : Option Bytes
  deriving DecidableEq, Repr

/-- The name a leaf's value is stored under, and looked up under after the namespace. -/
def Leaf.key (leaf : Leaf) : Bytes := leaf.pfx ++ leaf.env

mutual
/-- The fields `parse` hands to `parseField`, in the order it reaches them. -/
def leaves (pfx : Bytes) : List Field → List Leaf
  | [] => []
  | field :: rest => leavesOne pfx field ++ leaves pfx rest

def leavesOne (pfx : Bytes) : Field → List Leaf
  | .envConfig => [⟨pfx, .string, [], none⟩]
  | .struct envPrefix fields => leaves (pfx ++ envPrefix) fields
  | .value kind envTag default => [⟨pfx, kind, envTag, default⟩]
end

def Leaf.writes (lookupEnv : Bytes → Option Bytes) (envNamespace : Bytes) (leaf : Leaf) :
    Except ParseError (List (Bytes × Setting)) :=
  fieldWrites lookupEnv envNamespace leaf.pfx leaf.kind leaf.env leaf.default

def parseLeaves (lookupEnv : Bytes → Option Bytes) (envNamespace : Bytes) :
    List Leaf → Except ParseError (List (Bytes × Setting))
  | [] => .ok []
  | leaf :: rest => do
    let written ← leaf.writes lookupEnv envNamespace
    let more ← parseLeaves lookupEnv envNamespace rest
    pure (written ++ more)

section
variable (lookupEnv : Bytes → Option Bytes) (envNamespace : Bytes)

theorem parseLeaves_append (front back : List Leaf) :
    parseLeaves lookupEnv envNamespace (front ++ back) =
      parseLeaves lookupEnv envNamespace front >>= fun written =>
        parseLeaves lookupEnv envNamespace back >>= fun more => pure (written ++ more) := by
  induction front with
  | nil =>
    rw [List.nil_append]
    cases parseLeaves lookupEnv envNamespace back <;> rfl
  | cons leaf rest ih =>
    rw [List.cons_append, parseLeaves, ih, parseLeaves]
    cases leaf.writes lookupEnv envNamespace <;> cases parseLeaves lookupEnv envNamespace rest <;>
      cases parseLeaves lookupEnv envNamespace back <;>
      simp only [bind, Except.bind, pure, Except.pure, List.append_assoc]

mutual
theorem parse_eq_parseLeaves (pfx : Bytes) : ∀ fields : List Field,
    parse lookupEnv envNamespace pfx fields = parseLeaves lookupEnv envNamespace (leaves pfx fields)
  | [] => rfl
  | field :: rest => by
    rw [parse, leaves, parseLeaves_append, parseOne_eq_parseLeaves pfx field, parse_eq_parseLeaves pfx rest]

theorem parseOne_eq_parseLeaves (pfx : Bytes) : ∀ field : Field,
    parseOne lookupEnv envNamespace pfx field = parseLeaves lookupEnv envNamespace (leavesOne pfx field)
  | .envConfig => by
    simp only [parseOne, leavesOne, parseLeaves, Leaf.writes]
    cases fieldWrites lookupEnv envNamespace pfx .string [] none <;>
      simp only [bind, Except.bind, pure, Except.pure, List.append_nil]
  | .struct envPrefix fields => by rw [parseOne, leavesOne, parse_eq_parseLeaves (pfx ++ envPrefix) fields]
  | .value kind envTag default => by
    simp only [parseOne, leavesOne, parseLeaves, Leaf.writes]
    cases fieldWrites lookupEnv envNamespace pfx kind envTag default <;>
      simp only [bind, Except.bind, pure, Except.pure, List.append_nil]
end

end

theorem parse_eq {lookupEnv : Bytes → Option Bytes} {cfg : List Field} (embeds : cfg.any Field.isEnvConfig)
    (envNamespace : Bytes) :
    Parse lookupEnv cfg envNamespace = parseLeaves lookupEnv envNamespace (leaves [] cfg) := by
  rw [Parse, if_pos embeds, parse_eq_parseLeaves]

theorem parseLeaves_congr {lookupEnv lookupEnv' : Bytes → Option Bytes} {envNamespace envNamespace' : Bytes}
    {leafList : List Leaf}
    (same : ∀ leaf ∈ leafList, leaf.writes lookupEnv envNamespace = leaf.writes lookupEnv' envNamespace') :
    parseLeaves lookupEnv envNamespace leafList = parseLeaves lookupEnv' envNamespace' leafList := by
  induction leafList with
  | nil => rfl
  | cons leaf rest ih =>
    rw [parseLeaves, parseLeaves, same leaf (.head _), ih fun other mem => same other (.tail _ mem)]

def qualifiedName (envNamespace key : Bytes) : Bytes :=
  (if envNamespace ≠ [] then envNamespace ++ [0x5F] else []) ++ key

theorem envName_length (envNamespace key : Bytes) :
    envName (envNamespace.splitOn 0x5F) (envNamespace.splitOn 0x5F).length key = qualifiedName envNamespace key := by
  rcases eq_or_ne envNamespace [] with rfl | nonempty
  · rfl
  · simp only [envName, List.take_length, List.intercalate_splitOn, qualifiedName, if_pos nonempty]

theorem splitOn_length_pos (envNamespace : Bytes) : 0 < (envNamespace.splitOn 0x5F).length :=
  List.length_pos.mpr (List.splitOnP_ne_nil _ _)

theorem lookupLoop_congr {lookupEnv lookupEnv' : Bytes → Option Bytes} {nsParts : List Bytes} {name : Bytes}
    {n : Nat} (agree : ∀ i, 0 < i → i ≤ n → lookupEnv (envName nsParts i name) = lookupEnv' (envName nsParts i name)) :
    lookupLoop lookupEnv nsParts name n = lookupLoop lookupEnv' nsParts name n := by
  induction n with
  | zero => rfl
  | succ n ih => rw [lookupLoop, lookupLoop, agree (n + 1) n.succ_pos le_rfl, ih fun i pos le => agree i pos (by omega)]

theorem lookupLoop_unset (nsParts : List Bytes) (name : Bytes) (n : Nat) :
    lookupLoop (fun _ => none) nsParts name n = none := by
  induction n with
  | zero => rfl
  | succ n ih => rw [lookupLoop, ih]

section
variable {lookupEnv : Bytes → Option Bytes} {envNamespace : Bytes}

theorem Leaf.writes_untagged {leaf : Leaf} (untagged : leaf.env = []) :
    leaf.writes lookupEnv envNamespace = .ok [] := by
  rw [Leaf.writes, fieldWrites, parseField.eq_def, if_pos untagged]

theorem Leaf.writes_congr {lookupEnv' : Bytes → Option Bytes} (leaf : Leaf)
    (agree : ∀ i, 0 < i → i ≤ (envNamespace.splitOn 0x5F).length → leaf.env ≠ [] →
      lookupEnv (envName (envNamespace.splitOn 0x5F) i leaf.key) =
        lookupEnv' (envName (envNamespace.splitOn 0x5F) i leaf.key)) :
    leaf.writes lookupEnv envNamespace = leaf.writes lookupEnv' envNamespace := by
  by_cases untagged : leaf.env = []
  · rw [Leaf.writes_untagged untagged, Leaf.writes_untagged untagged]
  · simp only [Leaf.writes, fieldWrites, parseField.eq_def, if_neg untagged]
    rw [← Leaf.key, lookupLoop_congr fun i pos le => agree i pos le untagged]

theorem Leaf.writes_unset (leaf : Leaf) (envNamespace' : Bytes) :
    leaf.writes (fun _ => none) envNamespace = leaf.writes (fun _ => none) envNamespace' := by
  simp only [Leaf.writes, fieldWrites, parseField.eq_def, lookupLoop_unset]

theorem Leaf.writes_string {leaf : Leaf} (tagged : leaf.env ≠ []) (string : leaf.kind = .string) {default : Bytes}
    (hasDefault : leaf.default = some default) :
    leaf.writes lookupEnv envNamespace =
      .ok [(leaf.key, .string ((lookupLoop lookupEnv (envNamespace.splitOn 0x5F) leaf.key
        (envNamespace.splitOn 0x5F).length).getD default))] := by
  simp only [Leaf.writes, fieldWrites, parseField.eq_def, if_neg tagged, string, hasDefault]
  rw [← Leaf.key]
  cases lookupLoop lookupEnv (envNamespace.splitOn 0x5F) leaf.key (envNamespace.splitOn 0x5F).length <;> rfl

theorem parseLeaves_mem {leafList : List Leaf} {writes : List (Bytes × Setting)}
    (ok : parseLeaves lookupEnv envNamespace leafList = .ok writes) {leaf : Leaf} (mem : leaf ∈ leafList) :
    ∃ written, leaf.writes lookupEnv envNamespace = .ok written ∧ written ⊆ writes := by
  induction leafList generalizing writes with
  | nil => cases mem
  | cons first rest ih =>
    rw [parseLeaves] at ok
    cases firstWrites : first.writes lookupEnv envNamespace with
    | error err => rw [firstWrites] at ok; cases ok
    | ok written =>
      cases restWrites : parseLeaves lookupEnv envNamespace rest with
      | error err => rw [firstWrites, restWrites] at ok; cases ok
      | ok more =>
        rw [firstWrites, restWrites] at ok
        cases ok
        rcases List.mem_cons.mp mem with rfl | mem
        · exact ⟨written, firstWrites, List.subset_append_left _ _⟩
        · obtain ⟨w, leafWrites, sub⟩ := ih restWrites mem
          exact ⟨w, leafWrites, fun _ m => List.subset_append_right _ _ (sub m)⟩

theorem parseLeaves_error {leafList : List Leaf} {err : ParseError}
    (failed : parseLeaves lookupEnv envNamespace leafList = .error err) :
    ∃ leaf ∈ leafList, leaf.writes lookupEnv envNamespace = .error err := by
  induction leafList with
  | nil => cases failed
  | cons first rest ih =>
    rw [parseLeaves] at failed
    cases firstWrites : first.writes lookupEnv envNamespace with
    | error firstErr =>
      rw [firstWrites] at failed
      cases failed
      exact ⟨first, .head _, firstWrites⟩
    | ok written =>
      cases restWrites : parseLeaves lookupEnv envNamespace rest with
      | error restErr =>
        rw [firstWrites, restWrites] at failed
        cases failed
        obtain ⟨leaf, mem, leafWrites⟩ := ih restWrites
        exact ⟨leaf, .tail _ mem, leafWrites⟩
      | ok more => rw [firstWrites, restWrites] at failed; cases failed

end

/-- The names `Parse` may look up for `cfg`: each tagged field's prefixed tag under each cut of
the namespace. -/
def Reads (cfg : List Field) (envNamespace name : Bytes) : Prop :=
  ∃ leaf ∈ leaves [] cfg, leaf.env ≠ [] ∧
    ∃ i, 0 < i ∧ i ≤ (envNamespace.splitOn 0x5F).length ∧ name = envName (envNamespace.splitOn 0x5F) i leaf.key

/-- `Parse` depends on the environment only through the names it may look up. -/
theorem parse_congr {lookupEnv lookupEnv' : Bytes → Option Bytes} {cfg : List Field} {envNamespace : Bytes}
    (agree : ∀ name, Reads cfg envNamespace name → lookupEnv name = lookupEnv' name) :
    Parse lookupEnv cfg envNamespace = Parse lookupEnv' cfg envNamespace := by
  by_cases embeds : cfg.any Field.isEnvConfig
  · rw [parse_eq embeds, parse_eq embeds]
    exact parseLeaves_congr fun leaf mem =>
      leaf.writes_congr fun i pos le tagged => agree _ ⟨leaf, mem, tagged, i, pos, le, rfl⟩
  · rw [Parse, Parse, if_neg embeds, if_neg embeds]

theorem not_reads {cfg : List Field} {envNamespace name : Bytes}
    (checked : (leaves [] cfg).all (fun leaf => (List.range (envNamespace.splitOn 0x5F).length).all
      fun i => envName (envNamespace.splitOn 0x5F) (i + 1) leaf.key != name) = true) :
    ¬ Reads cfg envNamespace name := by
  rintro ⟨leaf, mem, -, i, pos, le, rfl⟩
  obtain ⟨i, rfl⟩ := Nat.exists_eq_succ_of_ne_zero pos.ne'
  have differs := List.all_eq_true.mp (List.all_eq_true.mp checked leaf mem) i (List.mem_range.mpr le)
  simp at differs

theorem setValue_error {kind : Kind} {envTag envValue : Bytes} {err : FieldError}
    (failed : setValue kind envTag envValue = .error err) : err.envTag = envTag := by
  cases kind with
  | string => cases failed
  | int width =>
    simp only [setValue] at failed
    split at failed
    · cases failed
    · cases failed; rfl
  | bool =>
    simp only [setValue] at failed
    split at failed
    · cases failed
    · cases failed; rfl
  | unsupported name => cases failed; rfl

theorem parseField_error {lookupEnv : Bytes → Option Bytes} {envNamespace pfx : Bytes} {kind : Kind}
    {envTag : Bytes} {default : Option Bytes} {fieldErr : FieldError}
    (failed : parseField lookupEnv envNamespace pfx kind envTag default = .error fieldErr) :
    fieldErr.envTag = envTag := by
  have mapped : ∀ envValue, (setValue kind envTag envValue).map some = .error fieldErr →
      fieldErr.envTag = envTag := by
    intro envValue mapFailed
    cases valueSet : setValue kind envTag envValue with
    | error valueErr => rw [valueSet] at mapFailed; cases mapFailed; exact setValue_error valueSet
    | ok setting => rw [valueSet] at mapFailed; cases mapFailed
  by_cases untagged : envTag = []
  · rw [parseField.eq_def, if_pos untagged] at failed
    cases failed
  rw [parseField.eq_def, if_neg untagged] at failed
  dsimp only at failed
  split at failed
  · exact mapped _ failed
  · split at failed
    · cases failed; rfl
    · exact mapped _ failed

theorem Leaf.writes_error {lookupEnv : Bytes → Option Bytes} {envNamespace : Bytes} {leaf : Leaf}
    {err : ParseError} (failed : leaf.writes lookupEnv envNamespace = .error err) :
    leaf.env ≠ [] ∧ ∃ fieldErr, err = .parseField fieldErr ∧ fieldErr.envTag = leaf.env := by
  by_cases untagged : leaf.env = []
  · rw [Leaf.writes_untagged untagged] at failed
    cases failed
  refine ⟨untagged, ?_⟩
  rw [Leaf.writes, fieldWrites] at failed
  split at failed
  · cases failed
  · cases failed
  · next fieldErr parsed =>
    cases failed
    exact ⟨fieldErr, rfl, parseField_error parsed⟩

/-- Every error of `Parse` but the missing `EnvConfig` names the `env` tag of a field of the
configuration. -/
theorem parse_error_names_field {lookupEnv : Bytes → Option Bytes} {cfg : List Field} {envNamespace : Bytes}
    {err : ParseError} (failed : Parse lookupEnv cfg envNamespace = .error err) :
    err = .getEnvConfig ∨ ∃ leaf ∈ leaves [] cfg, leaf.env ≠ [] ∧
      ∃ fieldErr, err = .parseField fieldErr ∧ fieldErr.envTag = leaf.env := by
  by_cases embeds : cfg.any Field.isEnvConfig
  · rw [parse_eq embeds] at failed
    obtain ⟨leaf, mem, leafWrites⟩ := parseLeaves_error failed
    exact .inr ⟨leaf, mem, Leaf.writes_error leafWrites⟩
  · rw [Parse, if_neg embeds] at failed
    cases failed
    exact .inl rfl

/-- The text a setting is written as: itself, `strconv.FormatInt` or `strconv.FormatBool`. -/
def Setting.format : Setting → Bytes
  | .string value => value
  | .int value => Json.formatInt value
  | .bool value => Strconv.formatBool value

/-- Whether a field of kind `kind` holds the setting as it is: of its kind, and an integer within
the field's width. -/
def Setting.fits : Setting → Kind → Bool
  | .string _, .string => true
  | .int value, .int width => decide (-2 ^ (width.bits - 1) ≤ value ∧ value < 2 ^ (width.bits - 1))
  | .bool _, .bool => true
  | _, _ => false

def Setting.Fits (setting : Setting) (kind : Kind) : Prop := setting.fits kind = true

instance (setting : Setting) (kind : Kind) : Decidable (setting.Fits kind) :=
  inferInstanceAs (Decidable (setting.fits kind = true))

theorem IntKind.bmod_of_fits (width : IntKind) {value : Int} (lower : -2 ^ (width.bits - 1) ≤ value)
    (upper : value < 2 ^ (width.bits - 1)) :
    (-2 ^ 63 ≤ value ∧ value < 2 ^ 63) ∧ value.bmod (2 ^ width.bits) = value := by
  cases width <;> simp only [IntKind.bits, Int.bmod, Nat.reducePow, Nat.reduceSub] at lower upper ⊢ <;>
    split <;> omega

theorem setValue_format {kind : Kind} {setting : Setting} (fits : setting.Fits kind) (envTag : Bytes) :
    setValue kind envTag setting.format = .ok setting := by
  cases setting <;> cases kind <;>
    simp only [Setting.Fits, Setting.fits, Bool.false_eq_true, decide_eq_true_eq] at fits
  case string.string => rfl
  case int.int value width =>
    obtain ⟨wide, kept⟩ := width.bmod_of_fits fits.1 fits.2
    simp only [setValue, Setting.format, (Strconv.formatInt_round_trip wide.1 wide.2).2, kept]
  case bool.bool => simp only [setValue, Setting.format, Strconv.parseBool_formatBool]

section
variable {lookupEnv : Bytes → Option Bytes} {envNamespace : Bytes}

theorem Leaf.writes_of_set {leaf : Leaf} (tagged : leaf.env ≠ []) {setting : Setting} (fits : setting.Fits leaf.kind)
    (set : lookupEnv (qualifiedName envNamespace leaf.key) = some setting.format) :
    leaf.writes lookupEnv envNamespace = .ok [(leaf.key, setting)] := by
  obtain ⟨n, length⟩ : ∃ n, (envNamespace.splitOn 0x5F).length = n + 1 :=
    Nat.exists_eq_succ_of_ne_zero (splitOn_length_pos envNamespace).ne'
  have first := envName_length envNamespace leaf.key
  rw [length] at first
  rw [Leaf.writes, fieldWrites, parseField.eq_def, if_neg tagged]
  dsimp only
  rw [length, lookupLoop, ← Leaf.key, first, set]
  simp only [setValue_format fits, Except.map]

theorem parseLeaves_of_set (value : Bytes → Setting) {leafList : List Leaf}
    (fits : ∀ leaf ∈ leafList, leaf.env ≠ [] → (value leaf.key).Fits leaf.kind)
    (set : ∀ leaf ∈ leafList, leaf.env ≠ [] →
      lookupEnv (qualifiedName envNamespace leaf.key) = some (value leaf.key).format) :
    parseLeaves lookupEnv envNamespace leafList =
      .ok ((leafList.filter fun leaf => leaf.env ≠ []).map fun leaf => (leaf.key, value leaf.key)) := by
  induction leafList with
  | nil => rfl
  | cons leaf rest ih =>
    have restOk := ih (fun other mem => fits other (.tail _ mem)) (fun other mem => set other (.tail _ mem))
    by_cases untagged : leaf.env = []
    · rw [parseLeaves, Leaf.writes_untagged untagged, restOk, List.filter_cons_of_neg (by simpa using untagged)]
      rfl
    · rw [parseLeaves, Leaf.writes_of_set untagged (fits _ (.head _) untagged) (set _ (.head _) untagged), restOk,
        List.filter_cons_of_pos (by simpa using untagged)]
      rfl

end

/-- Setting every tagged field's fully qualified variable to the text of a value it can hold, and
parsing, stores every value back, in the order of the fields. -/
theorem parse_round_trip {cfg : List Field} (embeds : cfg.any Field.isEnvConfig) (envNamespace : Bytes)
    (value : Bytes → Setting) {lookupEnv : Bytes → Option Bytes}
    (fits : ∀ leaf ∈ leaves [] cfg, leaf.env ≠ [] → (value leaf.key).Fits leaf.kind)
    (set : ∀ leaf ∈ leaves [] cfg, leaf.env ≠ [] →
      lookupEnv (qualifiedName envNamespace leaf.key) = some (value leaf.key).format) :
    Parse lookupEnv cfg envNamespace =
      .ok (((leaves [] cfg).filter fun leaf => leaf.env ≠ []).map fun leaf => (leaf.key, value leaf.key)) := by
  rw [parse_eq embeds, parseLeaves_of_set value fits set]

/-- The values the test case "reads environment variables" expects, by prefixed tag. -/
def testValues (key : Bytes) : Setting :=
  if key = ascii "INT_VALUE" then .int 123
  else if key = ascii "BOOL_VALUE" then .bool false
  else if key = ascii "NESTED_STRING" then .string (ascii "env-nested")
  else .string (ascii "env-value")

theorem parse_round_trip_test :
    testConfig.any Field.isEnvConfig ∧
      (∀ leaf ∈ leaves [] testConfig, leaf.env ≠ [] → (testValues leaf.key).Fits leaf.kind) ∧
      (∀ leaf ∈ leaves [] testConfig, leaf.env ≠ [] →
        testEnv (qualifiedName [] leaf.key) = some (testValues leaf.key).format) ∧
      Parse testEnv testConfig [] =
        .ok (((leaves [] testConfig).filter fun leaf => leaf.env ≠ []).map fun leaf => (leaf.key, testValues leaf.key)) :=
  ⟨rfl, by decide, by decide, @parse_round_trip testConfig rfl [] testValues testEnv (by decide) (by decide)⟩

theorem imagesvcConfig_embeds : imagesvcConfig.any Field.isEnvConfig := rfl

/-- With no variable set, under any namespace, every field of the image service's configuration
takes its `default` tag, and every default passes its field's check. -/
theorem imagesvcConfig_defaults (envNamespace : Bytes) :
    Parse (fun _ => none) imagesvcConfig envNamespace = .ok
      [(ascii "LOG_OUTPUT", .string (ascii "stderr")), (ascii "LOG_LEVEL", .string (ascii "info")),
        (ascii "LOG_FILTER", .string []), (ascii "LOG_JSON", .bool false),
        (ascii "MEDIA_MAX_SIZE", .int 20971520), (ascii "IMAGE_INTERPOLATOR", .string (ascii "catmullrom")),
        (ascii "IMAGE_HTTP_SERVER_ADDR", .string (ascii ":8080")), (ascii "IMAGE_HTTP_READ_HEADER_TIMEOUT", .int 5),
        (ascii "IMAGE_HTTP_READ_TIMEOUT", .int 5), (ascii "IMAGE_HTTP_WRITE_TIMEOUT", .int 5),
        (ascii "IMAGE_HTTP_MULTIPART_FILE_NAME", .string (ascii "upload")),
        (ascii "IMAGE_HTTP_URL_FILE_ID_PARAM", .string (ascii "media_id")),
        (ascii "IMAGE_HTTP_URL_FILE_DOWNLOAD_PARAM", .string (ascii "download")),
        (ascii "IMAGE_HTTP_URL_WIDTH_PARAM", .string (ascii "width")),
        (ascii "IMAGE_HTTP_CONTENT_DISPOSITION_DOWNLOAD", .bool false),
        (ascii "IMAGE_HTTP_MULTIPART_FORM_MAX_SIZE", .int 10485760),
        (ascii "AUTH_CLIENT_AUTH_URL", .string (ascii "http://localhost:8080/auth/validate")),
        (ascii "BLOB_BASEDIR", .string (ascii "var/storage/blob"))] := by
  rw [parse_eq imagesvcConfig_embeds, parseLeaves_congr fun leaf _ => leaf.writes_unset [],
    ← parse_eq imagesvcConfig_embeds]
  rfl

/-- The image service never reads `DEMO_IMAGESVC_HTTP_SERVER_ADDR` or `DEMO_HTTP_SERVER_ADDR`:
setting either changes nothing. Its listen address is `DEMO_IMAGESVC_IMAGE_HTTP_SERVER_ADDR`, else
`DEMO_IMAGE_HTTP_SERVER_ADDR`, else `:8080`. -/
theorem imagesvc_server_addr (lookupEnv : Bytes → Option Bytes) :
    (∀ name ∈ [ascii "DEMO_IMAGESVC_HTTP_SERVER_ADDR", ascii "DEMO_HTTP_SERVER_ADDR"], ∀ value : Option Bytes,
      Parse (fun other => if other = name then value else lookupEnv other) imagesvcConfig configPrefix =
        Parse lookupEnv imagesvcConfig configPrefix) ∧
    ∀ writes, Parse lookupEnv imagesvcConfig configPrefix = .ok writes →
      (ascii "IMAGE_HTTP_SERVER_ADDR", Setting.string ((lookupEnv (ascii "DEMO_IMAGESVC_IMAGE_HTTP_SERVER_ADDR") <|>
        lookupEnv (ascii "DEMO_IMAGE_HTTP_SERVER_ADDR")).getD (ascii ":8080"))) ∈ writes := by
  constructor
  · intro name named value
    apply parse_congr
    intro other reads
    rw [if_neg]
    rintro rfl
    simp only [List.mem_cons, List.mem_singleton, List.not_mem_nil, or_false] at named
    rcases named with rfl | rfl <;> exact absurd reads (not_reads (by rfl))
  · intro writes ok
    rw [parse_eq imagesvcConfig_embeds] at ok
    have mem : (⟨ascii "IMAGE_HTTP_", .string, ascii "SERVER_ADDR", some (ascii ":8080")⟩ : Leaf) ∈
        leaves [] imagesvcConfig := by
      decide
    obtain ⟨written, leafWrites, sub⟩ := parseLeaves_mem ok mem
    rw [Leaf.writes_string (by decide) rfl rfl] at leafWrites
    cases leafWrites
    have parts : configPrefix.splitOn 0x5F = [ascii "DEMO", ascii "IMAGESVC"] := by decide
    have longest : envName [ascii "DEMO", ascii "IMAGESVC"] 2 (ascii "IMAGE_HTTP_SERVER_ADDR") =
        ascii "DEMO_IMAGESVC_IMAGE_HTTP_SERVER_ADDR" := by decide
    have shorter : envName [ascii "DEMO", ascii "IMAGESVC"] 1 (ascii "IMAGE_HTTP_SERVER_ADDR") =
        ascii "DEMO_IMAGE_HTTP_SERVER_ADDR" := by decide
    have key : (⟨ascii "IMAGE_HTTP_", .string, ascii "SERVER_ADDR", some (ascii ":8080")⟩ : Leaf).key =
        ascii "IMAGE_HTTP_SERVER_ADDR" := by decide
    rw [parts, key] at sub
    simp only [List.length_cons, List.length_nil, lookupLoop, longest, shorter] at sub
    refine sub (List.mem_singleton.mpr ?_)
    cases lookupEnv (ascii "DEMO_IMAGESVC_IMAGE_HTTP_SERVER_ADDR") <;>
      cases lookupEnv (ascii "DEMO_IMAGE_HTTP_SERVER_ADDR") <;> rfl

theorem imagesvc_server_addr_unset :
    ∃ writes, Parse (fun _ => none) imagesvcConfig configPrefix = .ok writes ∧
      (ascii "IMAGE_HTTP_SERVER_ADDR", Setting.string (ascii ":8080")) ∈ writes :=
  ⟨_, imagesvcConfig_defaults configPrefix,
    (imagesvc_server_addr fun _ => none).2 _ (imagesvcConfig_defaults configPrefix)⟩

end Config

end Homecase
