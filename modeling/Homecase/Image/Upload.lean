import Homecase.Image.Service

namespace Homecase

/-! # The upload handler's goroutines

`HTTPTransport.handleUpload` (`POST /media`) fans an upload out over goroutines that talk
through two channels. `processMultipartForm` parses the form; on failure it returns a closed
error channel holding the error and a `nil` media channel. Otherwise
`processMultipartFormFiles` makes an unbuffered media channel and an error channel buffered by
the number of form fields, and starts a manager goroutine, which starts one `processFile`
goroutine per file unless the context has been cancelled (then it sends the context's error,
returns, and its deferred calls close both channels), and otherwise waits for them all and
closes both channels. The handler starts an error consumer, which records each error and
cancels the context, and a media consumer, which records each media; then it waits for both.

`Upload` is the state of all of them, and `Upload.move` one step of one goroutine. A goroutine
that sends on a closed channel panics; `closedSends` counts those sends. Two schedules break
what the handler relies on (`upload_hangs_or_panics`): after a form that fails to parse, the
media consumer ranges over a `nil` channel, so the handler waits in `errGroup.Wait` for ever
with no goroutine able to move; and a file whose type is refused makes the error consumer
cancel the context, the manager returns at the next file and closes the channels, and the
refused file's goroutine, still running, sends its second error on the closed error channel.
-/

/-- A file of the form, with what the filesystem and the media service do with it:
whether `fileHeader.Open()` and `io.ReadAll` succeed, and whether the media service's `Store`
does. -/
structure FileHeader where
  filename : Bytes
  size : Int
  content : Bytes
  opens : Bool
  reads : Bool
  stores : Bool
  deriving DecidableEq, Repr

/-- What `r.ParseMultipartForm` leaves: an error, a form without files, or the files of each
field. -/
inductive Form where
  | parseError
  | noFiles
  | files (fields : List (List FileHeader))
  deriving DecidableEq, Repr

/-- The errors sent on the error channel. -/
inductive UploadError where
  | parseMultipartForm
  | noMultipartFiles
  | canceled
  | notAllowed (filename : Bytes) (err : ServiceError)
  | openFailed (filename : Bytes)
  | readFailed (filename : Bytes)
  | storeFailed (filename : Bytes)
  /-- `ErrPanic`, sent by a deferred `recover`. -/
  | recovered
  deriving DecidableEq, Repr

/-- A Go channel: `nil`, open with its capacity and buffer, or closed with what is left in its
buffer. -/
inductive Chan (α : Type) where
  | nil
  | open (capacity : Nat) (buffer : List α)
  | closed (buffer : List α)
  deriving DecidableEq, Repr

/-- What a send on a channel does: it blocks, it panics (the channel is closed), or it is done. -/
inductive Sent (σ : Type) where
  | blocked
  | panics
  | done (after : σ)
  deriving DecidableEq, Repr

inductive HandlerPhase where
  | start
  | spawnErrConsumer
  | spawnMediaConsumer
  /-- `errGroup.Wait()`. -/
  | waiting
  | finished
  deriving DecidableEq, Repr

inductive ManagerPhase where
  /-- The files it has not looked at yet. -/
  | loop (files : List FileHeader)
  /-- `once.Do(func() { errCh <- ctx.Err() })`, then return. -/
  | canceling
  /-- `wg.Wait()`. -/
  | waiting
  /-- The deferred `close(errCh)`, then `close(mediaCh)`. -/
  | closingErr
  | closingMedia
  | finished
  /-- Its deferred `recover` has caught a panic and sends `ErrPanic`. -/
  | panicking
  | crashed
  deriving DecidableEq, Repr

inductive FilePhase where
  | start
  /-- `errCh <- err`, then on to `next`. -/
  | sending (err : UploadError) (next : FilePhase)
  | opening
  | reading
  | rechecking
  | storing (mimeType : Bytes)
  /-- `select { case mediaCh <- media: case <-ctx.Done(): }`. -/
  | delivering (media : Media)
  /-- Returning: its deferred calls end with `wg.Done()`. -/
  | exiting
  | finished
  /-- Its deferred `recover` has caught a panic and sends `ErrPanic`, then `wg.Done()`. -/
  | panicking
  /-- A panic in its deferred call, which nothing recovers: the process dies. -/
  | crashed
  deriving DecidableEq, Repr

inductive Routine where
  | handler (phase : HandlerPhase)
  | errConsumer (ranging : Bool)
  | mediaConsumer (ranging : Bool)
  | manager (phase : ManagerPhase)
  | processFile (file : FileHeader) (phase : FilePhase)
  deriving DecidableEq, Repr

/-- What the handler runs with: the limit of the image service, the digest and the username
`UsernameFromContext` finds, or the empty string. -/
structure UploadEnv where
  cfg : MediaConfig
  sha256 : Bytes → Bytes
  owner : Bytes

/-- The goroutines of one upload and what they share. `errGroup` and `wg` are the counters of
the two `sync.WaitGroup`s. -/
structure Upload where
  routines : List Routine
  errCh : Chan UploadError
  mediaCh : Chan Media
  canceled : Bool
  errGroup : Nat
  wg : Nat
  uploadErrors : List UploadError
  mediaResp : List Media
  closedSends : Nat
  deriving DecidableEq, Repr

/-- A step of goroutine `g`: `run g` its next statement, and `done g` the `ctx.Done()` case of
the `select` it is in. -/
inductive Move where
  | run (g : Nat)
  | done (g : Nat)
  deriving DecidableEq, Repr

namespace Chan

/-- A receive of `for x := range ch`: a value and the channel after it, `none` once the channel
is closed and drained (the loop ends), or it blocks (`Sent.blocked`). -/
def receive : Chan α → Sent (Option (α × Chan α))
  | .open capacity (x :: rest) => .done (some (x, .open capacity rest))
  | .closed (x :: rest) => .done (some (x, .closed rest))
  | .closed [] => .done none
  | _ => .blocked

/-- `close(ch)`; `none` when it panics. -/
def close : Chan α → Option (Chan α)
  | .open _ buffer => some (.closed buffer)
  | _ => none

end Chan

namespace Upload

def start : Upload := ⟨[.handler .start], .nil, .nil, false, 0, 0, [], [], 0⟩

def setRoutine (s : Upload) (g : Nat) (routine : Routine) : Upload :=
  { s with routines := s.routines.set g routine }

def spawn (s : Upload) (routine : Routine) : Upload :=
  { s with routines := s.routines ++ [routine] }

/-- The error consumer's loop body: record the error and cancel the context. -/
def takeErr (s : Upload) (err : UploadError) : Upload :=
  { s with uploadErrors := s.uploadErrors ++ [err], canceled := true }

def takeMedia (s : Upload) (media : Media) : Upload := { s with mediaResp := s.mediaResp ++ [media] }

/-- `errCh <- err`: into the buffer if it has room, or to the error consumer waiting in its
loop if the channel is unbuffered. -/
def sendErr (s : Upload) (err : UploadError) : Sent Upload :=
  match s.errCh with
  | .nil => .blocked
  | .closed _ => .panics
  | .open capacity buffer =>
    if buffer.length < capacity then .done { s with errCh := .open capacity (buffer ++ [err]) }
    else if capacity = 0 ∧ .errConsumer true ∈ s.routines then .done (s.takeErr err)
    else .blocked

/-- `mediaCh <- media`, the same way, to the media consumer. -/
def sendMedia (s : Upload) (media : Media) : Sent Upload :=
  match s.mediaCh with
  | .nil => .blocked
  | .closed _ => .panics
  | .open capacity buffer =>
    if buffer.length < capacity then .done { s with mediaCh := .open capacity (buffer ++ [media]) }
    else if capacity = 0 ∧ .mediaConsumer true ∈ s.routines then .done (s.takeMedia media)
    else .blocked

/-- A send by goroutine `g` that goes on to `next`, or panics into `panicked`. -/
def sendThen (s : Upload) (g : Nat) (sent : Upload → Sent Upload) (next panicked : Routine) :
    Option Upload :=
  match sent s with
  | .blocked => none
  | .panics => some { s.setRoutine g panicked with closedSends := s.closedSends + 1 }
  | .done after => some (after.setRoutine g next)

/-- `processMultipartForm`, and the start of the manager when the form has files. -/
def parseForm (s : Upload) (g : Nat) : Form → Upload
  | .parseError =>
    { s.setRoutine g (.handler .spawnErrConsumer) with
      errCh := .closed [.parseMultipartForm], mediaCh := .nil }
  | .noFiles =>
    { s.setRoutine g (.handler .spawnErrConsumer) with
      errCh := .closed [.noMultipartFiles], mediaCh := .nil }
  | .files fields =>
    { (s.setRoutine g (.handler .spawnErrConsumer)).spawn (.manager (.loop fields.flatten)) with
      errCh := .open fields.length [], mediaCh := .open 0 [] }

/-- The media a file is stored as: `domain.NewMedia(buffer, MediaMeta{Filename, Owner,
MIMEType})`. -/
def fileMedia (env : UploadEnv) (file : FileHeader) (mimeType : Bytes) : Media :=
  newMedia env.sha256 file.content ⟨file.filename, [], [], 0, env.owner, mimeType⟩

/-- The next statement of `processFile`, goroutine `g`, on `file`. -/
def runFile (env : UploadEnv) (s : Upload) (g : Nat) (file : FileHeader) : FilePhase → Option Upload
  | .start =>
    if s.canceled then some (s.setRoutine g (.processFile file .exiting))
    else
      match checkUploadConstraints env.cfg file.filename file.size none with
      | .error err =>
        some (s.setRoutine g (.processFile file (.sending (.notAllowed file.filename err) .opening)))
      | .ok _ => some (s.setRoutine g (.processFile file .opening))
  | .sending err next =>
    s.sendThen g (·.sendErr err) (.processFile file next) (.processFile file .panicking)
  | .opening =>
    some (s.setRoutine g (.processFile file
      (if file.opens then .reading else .sending (.openFailed file.filename) .exiting)))
  | .reading =>
    some (s.setRoutine g (.processFile file
      (if file.reads then .rechecking else .sending (.readFailed file.filename) .exiting)))
  | .rechecking =>
    match checkUploadConstraints env.cfg file.filename file.size (some file.content) with
    | .error err =>
      some (s.setRoutine g (.processFile file
        (.sending (.notAllowed file.filename err) (.storing []))))
    | .ok (mimeType, _) => some (s.setRoutine g (.processFile file (.storing mimeType)))
  | .storing mimeType =>
    let media := fileMedia env file mimeType
    let stored := match checkUploadConstraints env.cfg file.filename media.data.length
        (some media.data) with
      | .error _ => false
      | .ok _ => file.stores
    some (s.setRoutine g (.processFile file
      (if stored then .delivering media else .sending (.storeFailed file.filename) .exiting)))
  | .delivering media =>
    s.sendThen g (·.sendMedia media) (.processFile file .exiting) (.processFile file .panicking)
  | .exiting => some { s.setRoutine g (.processFile file .finished) with wg := s.wg - 1 }
  | .panicking =>
    s.sendThen g (·.sendErr .recovered) (.processFile file .exiting) (.processFile file .crashed)
  | .finished | .crashed => none

/-- The next statement of the manager, goroutine `g`. -/
def runManager (s : Upload) (g : Nat) : ManagerPhase → Option Upload
  | .loop (file :: files) =>
    if s.canceled then some (s.setRoutine g (.manager .canceling))
    else some { (s.setRoutine g (.manager (.loop files))).spawn (.processFile file .start) with
      wg := s.wg + 1 }
  | .loop [] => some (s.setRoutine g (.manager .waiting))
  | .canceling => s.sendThen g (·.sendErr .canceled) (.manager .closingErr) (.manager .panicking)
  | .waiting => if s.wg = 0 then some (s.setRoutine g (.manager .closingErr)) else none
  | .closingErr =>
    match s.errCh.close with
    | some closed => some { s.setRoutine g (.manager .closingMedia) with errCh := closed }
    | none => some (s.setRoutine g (.manager .crashed))
  | .closingMedia =>
    match s.mediaCh.close with
    | some closed => some { s.setRoutine g (.manager .finished) with mediaCh := closed }
    | none => some (s.setRoutine g (.manager .crashed))
  | .panicking =>
    s.sendThen g (·.sendErr .recovered) (.manager .closingErr) (.manager .crashed)
  | .finished | .crashed => none

def move (env : UploadEnv) (form : Form) (s : Upload) : Move → Option Upload
  | .run g =>
    match s.routines[g]? with
    | some (.handler .start) => some (s.parseForm g form)
    | some (.handler .spawnErrConsumer) =>
      some { (s.setRoutine g (.handler .spawnMediaConsumer)).spawn (.errConsumer true) with
        errGroup := s.errGroup + 1 }
    | some (.handler .spawnMediaConsumer) =>
      some { (s.setRoutine g (.handler .waiting)).spawn (.mediaConsumer true) with
        errGroup := s.errGroup + 1 }
    | some (.handler .waiting) =>
      if s.errGroup = 0 then some (s.setRoutine g (.handler .finished)) else none
    | some (.errConsumer true) =>
      match s.errCh.receive with
      | .done (some (err, rest)) => some ({ s with errCh := rest }.takeErr err)
      | .done none => some { s.setRoutine g (.errConsumer false) with errGroup := s.errGroup - 1 }
      | _ => none
    | some (.mediaConsumer true) =>
      match s.mediaCh.receive with
      | .done (some (media, rest)) => some ({ s with mediaCh := rest }.takeMedia media)
      | .done none =>
        some { s.setRoutine g (.mediaConsumer false) with errGroup := s.errGroup - 1 }
      | _ => none
    | some (.manager phase) => s.runManager g phase
    | some (.processFile file phase) => runFile env s g file phase
    | _ => none
  | .done g =>
    match s.routines[g]? with
    | some (.processFile file (.delivering _)) =>
      if s.canceled then some (s.setRoutine g (.processFile file .exiting)) else none
    | _ => none

def run (env : UploadEnv) (form : Form) (s : Upload) : List Move → Option Upload
  | [] => some s
  | m :: schedule => (s.move env form m).bind (run env form · schedule)

/-- The handler waits in `errGroup.Wait()` and no goroutine can move. -/
def hung (env : UploadEnv) (form : Form) (s : Upload) : Bool :=
  .handler .waiting ∈ s.routines &&
    (List.range s.routines.length).all fun g =>
      (s.move env form (.run g)).isNone && (s.move env form (.done g)).isNone

/-- `hung` says what it is meant to: no move at all is possible. -/
theorem hung_iff (env : UploadEnv) (form : Form) (s : Upload) :
    s.hung env form = true ↔
      .handler .waiting ∈ s.routines ∧ ∀ m, s.move env form m = none := by
  have beyond : ∀ g, s.routines.length ≤ g → ∀ m, (m = .run g ∨ m = .done g) →
      s.move env form m = none := by
    rintro g far _ (rfl | rfl) <;> simp [move, List.getElem?_eq_none far]
  simp only [hung, Bool.and_eq_true, decide_eq_true_eq, List.all_eq_true, List.mem_range,
    Option.isNone_iff_eq_none]
  refine and_congr_right fun _ => ⟨fun moves m => ?_, fun moves g _ => ⟨moves _, moves _⟩⟩
  rcases m with g | g <;> by_cases near : g < s.routines.length
  all_goals first
    | exact (moves g near).1 | exact (moves g near).2
    | exact beyond g (Nat.le_of_not_lt near) _ (by simp)

/-- A form that fails to parse leaves the handler waiting for ever once the error consumer has
drained the error channel: the media consumer ranges over a `nil` channel. And with a form of
one field holding a text file and a JPEG, the text file's goroutine sends its refusal, the error
consumer cancels the context, the manager meets the cancellation at the JPEG, sends the
context's error and closes both channels, and the text file's goroutine, rechecking its content,
sends its second refusal on the closed error channel. -/
theorem upload_hangs_or_panics :
    (start.run ⟨MediaConfig.default, id, ascii "alice"⟩ .parseError
        [.run 0, .run 0, .run 0, .run 1, .run 1]).map
      (·.hung ⟨MediaConfig.default, id, ascii "alice"⟩ .parseError) = some true ∧
    (start.run ⟨MediaConfig.default, id, ascii "alice"⟩
        (.files [[⟨ascii "a.txt", 1, [0x61], true, true, true⟩,
          ⟨ascii "b.jpg", 2, [0xFF, 0xD8], true, true, true⟩]])
        [.run 0, .run 0, .run 0, .run 1, .run 4, .run 4, .run 2, .run 1, .run 1, .run 1, .run 1,
          .run 4, .run 4, .run 4, .run 4]).map (·.closedSends) = some 1 := by
  decide

end Upload

end Homecase
