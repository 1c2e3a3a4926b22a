import Homecase.Util.Utf8

namespace Homecase

/-! # Which log records are written

`logging.Configure` stores the logger configuration with its output handle, and
`logging.GetLogger(name)` builds a `slog.Logger` over a `ConsoleHandler` (or a `JSONHandler`)
wrapped in a `TracingHandler`, with the attributes `app` and `logger` attached. A call on the
logger is dropped unless its level reaches the configured one (`Enabled`); the console handler
then looks for an attribute `name` among the record's attributes and its own, and drops the
record if the most specific package level of `LOG_FILTER` is above it.

No logger carries an attribute `name`: `GetLogger` names its logger under the key `logger`, and
the trace id comes as the group `trace`. So for every call without an explicit `name` attribute
the package filter looks up the empty package only, and an entry `pkg:level` of `LOG_FILTER`
never changes what a logger writes (`configured_logger_writes`).

The text of a line (colours, time, caller, attributes) is not modelled, nor which stream it goes
to: a call either writes a line or it does not.
-/

namespace Logging

/-- `asciiSpace` of package `strings`. -/
def isAsciiSpace (c : Byte) : Bool :=
  c.val = 0x09 || c.val = 0x0A || c.val = 0x0B || c.val = 0x0C || c.val = 0x0D || c.val = 0x20

/-- `unicode.IsSpace`: the Latin-1 spaces, then the rest of the `White_Space` table. -/
def isSpace (r : Nat) : Bool :=
  if r ≤ 0xFF then
    r = 0x09 || r = 0x0A || r = 0x0B || r = 0x0C || r = 0x0D || r = 0x20 || r = 0x85 || r = 0xA0
  else
    r = 0x1680 || (0x2000 ≤ r && r ≤ 0x200A) || r = 0x2028 || r = 0x2029 || r = 0x202F ||
      r = 0x205F || r = 0x3000

/-- The rune a `range` loop yields for one step of the walk: `RuneError` for an ill-formed byte. -/
def runeValue : Rune → Nat
  | .ascii b => b.val
  | .multi bytes => (decodeRune bytes).1
  | .invalid _ => 0xFFFD

/-- `utf8.RuneStart`. -/
def isRuneStart (b : Byte) : Bool := b.val / 0x40 ≠ 2

/-- The loop of `utf8.DecodeLastRune` that backs up to a byte that can start a rune. The argument
is one more than the loop variable, so that `0` stands for `-1`, which the code clamps to `0`. -/
def runeStartFrom (p : Bytes) (lim : Nat) : Nat → Nat
  | 0 => 0
  | start + 1 =>
    if start < lim then start
    else if isRuneStart (p.getD start 0) then start
    else runeStartFrom p lim start

/-- `utf8.DecodeLastRune`. -/
def decodeLastRune (p : Bytes) : Nat × Nat :=
  match p.getLast? with
  | none => (0xFFFD, 0)
  | some last =>
    if last.val < 0x80 then (last.val, 1)
    else
      let start := runeStartFrom p (p.length - 4) (p.length - 1)
      let (r, size) := decodeRune (p.drop start)
      if start + size ≠ p.length then (0xFFFD, 1) else (r, size)

/-- The loop of `lastIndexFunc(s, unicode.IsSpace, false)` from `i` down, with one step of fuel
per byte: the start of the last rune that is not a space, or `none` for `-1`. -/
def lastNonSpace (s : Bytes) : Nat → Nat → Option Nat
  | 0, _ => none
  | _, 0 => none
  | fuel + 1, i + 1 =>
    let (r, size) := decodeLastRune (s.take (i + 1))
    if isSpace r then lastNonSpace s fuel (i + 1 - size) else some (i + 1 - size)

/-- `strings.TrimRightFunc(s, unicode.IsSpace)`. -/
def trimRightSpace (s : Bytes) : Bytes :=
  match lastNonSpace s s.length s.length with
  | some i => if 0x80 ≤ (s.getD i 0).val then s.take (i + (decodeRune (s.drop i)).2) else s.take (i + 1)
  | none => []

/-- `strings.TrimLeftFunc(s, unicode.IsSpace)`, whose `range` loop is the walk `runes`. -/
def trimLeftSpace (s : Bytes) : Bytes :=
  ((runes s).dropWhile fun r => isSpace (runeValue r)).flatMap Rune.bytes

/-- `strings.TrimSpace`: the ASCII fast path from the front, then from the back, falling back to
`TrimFunc` or `TrimRightFunc` at the first byte of `0x80` or more. -/
def trimSpace (s : Bytes) : Bytes :=
  match s.dropWhile isAsciiSpace with
  | [] => []
  | c :: rest =>
    if 0x80 ≤ c.val then trimRightSpace (trimLeftSpace (c :: rest))
    else
      match (c :: rest).reverse.dropWhile isAsciiSpace with
      | [] => []
      | d :: front => if 0x80 ≤ d.val then trimRightSpace (d :: front).reverse else (d :: front).reverse

/-- `slog.LevelDebug`, `LevelInfo`, `LevelWarn` and `LevelError`. -/
def levelDebug : Int := -4
def levelInfo : Int := 0
def levelWarn : Int := 4
def levelError : Int := 8

def logLevelStrToLevel : List (Bytes × Int) :=
  [(ascii "debug", levelDebug), (ascii "info", levelInfo), (ascii "warn", levelWarn), (ascii "error", levelError)]

def parseLogLevel (levelStr : Bytes) (fallback : Int) : Int :=
  match logLevelStrToLevel.lookup (stringsToLower (trimSpace levelStr)) with
  | some level => level
  | none => fallback

/-- Where a logger writes: `io.Discard`, `os.Stdout`, `os.Stderr` or a file opened for appending. -/
inductive OutputHandle where
  | discard
  | stdout
  | stderr
  | file (path : Bytes)
  deriving DecidableEq, Repr

structure LoggerConfig where
  appName : Bytes
  output : Bytes
  level : Bytes
  filter : Bytes
  json : Bool
  outputHandle : Option OutputHandle
  deriving DecidableEq, Repr

/-- `configure`: the configuration `Configure` stores, with the output handle chosen from
`Output` when none is given. The file is opened with `os.OpenFile`, whose failure (a panic) is
not modelled. -/
def configure (cfg : LoggerConfig) (appName : Bytes) : LoggerConfig :=
  { cfg with
    appName := appName
    outputHandle :=
      match cfg.outputHandle with
      | some handle => some handle
      | none =>
        if cfg.output = [] ∨ cfg.output = ascii "discard" then some .discard
        else if cfg.output = ascii "stdout" then some .stdout
        else if cfg.output = ascii "stderr" then some .stderr
        else some (.file cfg.output) }

/-- `getOutput`: the configured handle, `io.Discard` before `Configure`. -/
def getOutput (config : LoggerConfig) : OutputHandle := config.outputHandle.getD .discard

/-- `LoggerConfig.getPkgLevels`: each `pkg:level` entry of `Filter`, later entries over earlier
ones; entries without exactly one `:` are skipped, and an unknown level reads as debug. -/
def getPkgLevels (filter : Bytes) : Bytes → Option Int :=
  (filter.splitOn 0x2C).foldl
    (fun levels pkgLevel =>
      match pkgLevel.splitOn 0x3A with
      | [pkg, level] => fun key => if key = pkg then some (parseLogLevel level levelDebug) else levels key
      | _ => levels)
    fun _ => none

/-- A `slog.Attr` as the console handler's filter reads it: its key, and its value as
`Value.String()` prints it. -/
structure Attr where
  key : Bytes
  value : Bytes
  deriving DecidableEq, Repr

/-- `ConsoleHandler`, with the level of its `LevelVar`. -/
structure ConsoleHandler where
  level : Int
  pkgLevels : Bytes → Option Int
  attrs : List Attr

/-- The loop `for i := 0; i <= len(pkgParts); i++` of `ConsoleHandler.Handle`: `i` counts up, and
`remaining` is the number of iterations left. `false` when the record is dropped. -/
def pkgLoop (pkgLevels : Bytes → Option Int) (level : Int) (pkgParts : List Bytes) (i : Nat) :
    Nat → Bool
  | 0 => true
  | remaining + 1 =>
    let key := if i < pkgParts.length then [0x2E].intercalate (pkgParts.take (pkgParts.length - i)) else []
    match pkgLevels key with
    | none => pkgLoop pkgLevels level pkgParts (i + 1) remaining
    | some pkgLevel => if level < pkgLevel then false else true

/-- Whether `ConsoleHandler.Handle` writes a record with the given level and attributes: the
package is the value of the first attribute `name`, the record's before the handler's. -/
def ConsoleHandler.handle (h : ConsoleHandler) (level : Int) (recordAttrs : List Attr) : Bool :=
  let attrs := recordAttrs ++ h.attrs
  let pkg := ((attrs.find? fun attr => attr.key = ascii "name").map Attr.value).getD []
  let pkgParts := pkg.splitOn 0x2E
  pkgLoop h.pkgLevels level pkgParts 0 (pkgParts.length + 1)

def ConsoleHandler.enabled (h : ConsoleHandler) (level : Int) : Bool := decide (h.level ≤ level)

/-- The loggers `GetLogger` returns: the no-op logger over `io.Discard`, or a `TracingHandler`
over a JSON handler with a level or over a console handler. -/
inductive Logger where
  | nop
  | json (level : Int)
  | console (handler : ConsoleHandler)

/-- The `ConsoleHandler` of `GetLogger`, with the attributes its two `With` calls attach. -/
def consoleHandler (config : LoggerConfig) (name : Bytes) : ConsoleHandler :=
  { level := parseLogLevel config.level levelInfo
    pkgLevels := getPkgLevels config.filter
    attrs := (if config.appName ≠ [] then [⟨ascii "app", config.appName⟩] else []) ++ [⟨ascii "logger", name⟩] }

def getLogger (config : LoggerConfig) (name : Bytes) : Logger :=
  if getOutput config = .discard then .nop
  else if config.json then .json (parseLogLevel config.level levelInfo)
  else .console (consoleHandler config name)

/-- The attribute `TracingHandler.Handle` adds to a record when the context carries a trace id:
the group `trace`, printed as `[id=<trace id>]`. -/
def traceAttrs (traceID : Option Bytes) : List Attr :=
  match traceID with
  | some id => [⟨ascii "trace", ascii "[id=" ++ id ++ ascii "]"⟩]
  | none => []

/-- Whether a call `logger.Log(ctx, level, msg, attrs...)` writes a line: `slog.Logger.log` asks
`Enabled` first, and the tracing handler appends the trace group to the record before the handler
underneath sees it. -/
def Logger.writes (logger : Logger) (traceID : Option Bytes) (level : Int) (attrs : List Attr) : Bool :=
  match logger with
  | .nop => false
  | .json handlerLevel => decide (handlerLevel ≤ level)
  | .console h => h.enabled level && h.handle level (attrs ++ traceAttrs traceID)

theorem pkgLoop_root (pkgLevels : Bytes → Option Int) (level : Int) :
    pkgLoop pkgLevels level [[]] 0 2 = (pkgLevels []).all fun pkgLevel => decide (pkgLevel ≤ level) := by
  show (match pkgLevels [] with
    | none =>
      match pkgLevels [] with
      | none => true
      | some pkgLevel => if level < pkgLevel then false else true
    | some pkgLevel => if level < pkgLevel then false else true) = _
  cases pkgLevels [] with
  | none => rfl
  | some pkgLevel =>
    by_cases below : level < pkgLevel
    · simp [below, Int.not_le.mpr below]
    · simp [below, Int.not_lt.mp below]

theorem find?_name_none {attrs : List Attr} (noName : ∀ attr ∈ attrs, attr.key ≠ ascii "name") :
    attrs.find? (fun attr => attr.key = ascii "name") = none :=
  List.find?_eq_none.mpr fun attr mem => by simpa using noName attr mem

/-- A console handler whose records carry no attribute `name` applies the filter's entry for the
empty package only. -/
theorem ConsoleHandler.handle_of_no_name (h : ConsoleHandler) {level : Int} {attrs : List Attr}
    (noName : ∀ attr ∈ attrs ++ h.attrs, attr.key ≠ ascii "name") :
    h.handle level attrs = (h.pkgLevels []).all fun pkgLevel => decide (pkgLevel ≤ level) := by
  simp only [ConsoleHandler.handle, find?_name_none noName, Option.map_none', Option.getD_none,
    List.splitOn_nil, List.length_singleton]
  exact pkgLoop_root h.pkgLevels level

theorem traceAttrs_key {traceID : Option Bytes} : ∀ attr ∈ traceAttrs traceID, attr.key = ascii "trace" := by
  cases traceID <;> simp [traceAttrs]

theorem consoleHandler_key (config : LoggerConfig) (name : Bytes) :
    ∀ attr ∈ (consoleHandler config name).attrs, attr.key = ascii "app" ∨ attr.key = ascii "logger" := by
  intro attr mem
  simp only [consoleHandler, List.mem_append, List.mem_singleton] at mem
  rcases mem with mem | rfl
  · split_ifs at mem
    · exact .inl (by simp_all)
    · cases mem
  · exact .inr rfl

/-- For every configuration and every call without an attribute `name`, a logger from
`GetLogger` writes exactly when its output is not discarded, the call's level reaches `Level`,
and, on the console, the level reaches what `Filter` gives the empty package. No entry of
`Filter` for a named package changes anything. -/
theorem configured_logger_writes (cfg : LoggerConfig) (appName name : Bytes) (traceID : Option Bytes)
    (level : Int) (attrs : List Attr) (noName : ∀ attr ∈ attrs, attr.key ≠ ascii "name") :
    (getLogger (configure cfg appName) name).writes traceID level attrs =
      (getOutput (configure cfg appName) != .discard && decide (parseLogLevel cfg.level levelInfo ≤ level) &&
        (cfg.json || (getPkgLevels cfg.filter []).all fun pkgLevel => decide (pkgLevel ≤ level))) := by
  by_cases discarded : getOutput (configure cfg appName) = .discard
  · rw [getLogger, if_pos discarded, discarded]
    rfl
  · have shown : (getOutput (configure cfg appName) != .discard) = true := by simpa using discarded
    rw [getLogger, if_neg discarded, shown, Bool.true_and]
    cases json : cfg.json
    · have console := @ConsoleHandler.handle_of_no_name (consoleHandler (configure cfg appName) name)
        level (attrs ++ traceAttrs traceID) (by
          intro attr mem
          rcases List.mem_append.mp mem with mem | mem
          · rcases List.mem_append.mp mem with mem | mem
            · exact noName attr mem
            · rw [traceAttrs_key attr mem]; decide
          · rcases consoleHandler_key _ _ attr mem with key | key <;> rw [key] <;> decide)
      rw [if_neg (by simpa [configure] using json), Logger.writes, console]
      rfl
    · rw [if_pos (by simpa [configure] using json)]
      simp [Logger.writes, configure]

theorem configured_logger_writes_filtered_package :
    (∀ attr ∈ ([] : List Attr), attr.key ≠ ascii "name") ∧
      (getLogger (configure ⟨[], ascii "stderr", ascii "debug", ascii "infra.logging:error", false, none⟩
        (ascii "demo.imagesvc")) (ascii "infra.logging")).writes none levelDebug [] = true :=
  ⟨fun _ mem => absurd mem (List.not_mem_nil _),
    (configured_logger_writes _ _ _ _ _ [] fun _ mem => absurd mem (List.not_mem_nil _)).trans (by decide)⟩

end Logging

end Homecase
