import Homecase.Media.Sections

namespace Homecase

/-! # Media calls side by side

Any number of `Store`, `Delete` and `Fetch` calls run as tasks of one world, their repository
calls interleaved in any order, with the locks granted as the `blob.Repository` contract states.
`Serial` is the invariant of such a world. It says three things.

* The repositories are in step with a list of live media, `live`, through a state `V`:
  `Represents live V`, and the repositories hold what `V` holds on every blob but those of a
  section under way (`MediaCall.Foot`).
* A task inside its section has got where the section run alone from `V` gets (`Prog.Solo`),
  on the blobs of the section. Nothing else touches those blobs meanwhile: their data lock is
  exclusive, and a metadata blob is written only under its lock.
* A `Delete` that has read a media's metadata knows it was that of a live media, which is live
  still unless its id is gone (`MetaRead`): no `Store` of the id can take the exclusive lock
  while the `Delete` holds the shared one.

When a section releases its data lock, its run alone is complete. It has done what the call
does alone on `V` (`Prog.Solo.run_eq`), so the live media change as the sequential semantics
says, and `V` moves on to the section's end state.
-/

open BlobMediaService ServiceM

/-- A media call as a task of a world: the service call, its result as a `MediaResult`. -/
def MediaCall.prog (cfg : MediaConfig) (sha256 : Bytes → Bytes) : MediaCall → Prog MediaResult
  | .store media => Prog.wrap (Prog.pure ∘ MediaResult.stored) [] (BlobMediaService.store cfg media).run
  | .fetch caller mediaID => Prog.wrap (Prog.pure ∘ MediaResult.fetched) []
    (BlobMediaService.fetch sha256 caller mediaID).run
  | .delete caller mediaID => Prog.wrap (Prog.pure ∘ MediaResult.deleted) []
    (BlobMediaService.delete caller mediaID).run

/-- What a `Delete` of `mediaID` knows of the metadata `meta` it has read: it is the stored
metadata of a known media with that id, and that media is live, or no media with that id is. -/
def MetaRead (known live : List Media) (meta : MediaMeta) (mediaID : BlobID) : Prop :=
  ∃ media ∈ known, media.id = mediaID ∧ meta = media.meta.sanitize ∧
    (media ∈ live ∨ mediaID ∉ live.map Media.id)

section Places

variable (cfg : MediaConfig) (sha256 : Bytes → Bytes) (known : List Media)

/-- The places a `Store` of `media` can be in a world, and what holds at each, with `V` the
state the repositories are in step with and `repos` the state they are in. -/
inductive StoreAt (live : List Media) (V repos : Repos) (media : Media) : Task MediaResult → Prop
  | start : StoreAt live V repos media ⟨(MediaCall.store media).prog cfg sha256, [], .idle⟩
  /-- Holding the exclusive lock on its metadata blob. -/
  | metaLocked (fits : ¬ media.size > cfg.maxSize) :
      StoreAt live V repos media
        ⟨Prog.wrap (Prog.pure ∘ MediaResult.stored) [⟨.meta, media.id, true⟩]
          (withLock .data media.hash true (storeSection media)).run, [⟨.meta, media.id, true⟩], .idle⟩
  /-- Inside both locks, where the section run alone from `V` gets, on repositories that agree
  with that run on the section's blobs. -/
  | inSection (fits : ¬ media.size > cfg.maxSize) {cur : Prog (Except ServiceError Unit)}
      {phase : StorePhase} {after : Repos} (solo : Prog.Solo V (storeSection media).run cur phase after)
      (agree : Repos.Agree (sectionBlobs media.hash media.id) after repos) :
      StoreAt live V repos media
        ⟨Prog.wrap (Prog.pure ∘ MediaResult.stored) [⟨.data, media.hash, true⟩, ⟨.meta, media.id, true⟩] cur,
          [⟨.data, media.hash, true⟩, ⟨.meta, media.id, true⟩], phase⟩
  /-- Stored, still holding the metadata lock: the id is live. -/
  | stored (listed : media.id ∈ live.map Media.id) :
      StoreAt live V repos media
        ⟨Prog.wrap (Prog.pure ∘ MediaResult.stored) [⟨.meta, media.id, true⟩] (.pure (.ok ())),
          [⟨.meta, media.id, true⟩], .idle⟩
  | done (result : Except ServiceError Unit) : StoreAt live V repos media ⟨.pure (.stored result), [], .idle⟩

/-- The places a `Delete` of `mediaID` can be in a world, and what holds at each. -/
inductive DeleteAt (live : List Media) (V repos : Repos) (caller : Caller) (mediaID : BlobID) :
    Task MediaResult → Prop
  | start : DeleteAt live V repos caller mediaID ⟨(MediaCall.delete caller mediaID).prog cfg sha256, [], .idle⟩
  /-- Holding the shared lock on the metadata blob, before reading it. -/
  | metaLocked :
      DeleteAt live V repos caller mediaID
        ⟨Prog.wrap (Prog.pure ∘ MediaResult.deleted) [⟨.meta, mediaID, false⟩] (deleteChecked caller mediaID).run,
          [⟨.meta, mediaID, false⟩], .idle⟩
  /-- The metadata read and the owner checked. -/
  | checked {meta : MediaMeta} (read : MetaRead known live meta mediaID) (owner : caller = some meta.owner) :
      DeleteAt live V repos caller mediaID
        ⟨Prog.wrap (Prog.pure ∘ MediaResult.deleted) [⟨.meta, mediaID, false⟩]
          (withLock .data meta.hash true (deleteSection meta mediaID)).run, [⟨.meta, mediaID, false⟩], .idle⟩
  /-- Inside both locks, where the section run alone from `V` gets. -/
  | inSection {meta : MediaMeta} (read : MetaRead known live meta mediaID) (owner : caller = some meta.owner)
      {cur : Prog (Except ServiceError (Bool × BlobID))} {phase : StorePhase} {after : Repos}
      (solo : Prog.Solo V (deleteSection meta mediaID).run cur phase after)
      (agree : Repos.Agree (sectionBlobs meta.hash mediaID) after repos) :
      DeleteAt live V repos caller mediaID
        ⟨Prog.wrap (Prog.pure ∘ MediaResult.deleted) [⟨.data, meta.hash, true⟩, ⟨.meta, mediaID, false⟩] cur,
          [⟨.data, meta.hash, true⟩, ⟨.meta, mediaID, false⟩], phase⟩
  /-- Done with the data, or stopped before it, still holding the metadata lock. -/
  | released (result : Except ServiceError (Bool × BlobID)) :
      DeleteAt live V repos caller mediaID
        ⟨Prog.wrap (Prog.pure ∘ MediaResult.deleted) [⟨.meta, mediaID, false⟩] (.pure result),
          [⟨.meta, mediaID, false⟩], .idle⟩
  | done (result : Except ServiceError (Bool × BlobID)) :
      DeleteAt live V repos caller mediaID ⟨.pure (.deleted result), [], .idle⟩

/-- Where a call's task can be, and what holds there. A `Fetch` only reads and takes shared
locks. -/
def MediaCall.At (live : List Media) (V repos : Repos) : MediaCall → Task MediaResult → Prop
  | .store media, task => StoreAt cfg sha256 live V repos media task
  | .delete caller mediaID, task => DeleteAt cfg sha256 known live V repos caller mediaID task
  | .fetch _ _, task => task.prog.Calls RepoOp.ReadOnly ∧ ∀ h ∈ task.held, h.exclusive = false

end Places

/-- The blobs a call's task may have changed and not yet settled: those of the section it holds
the data lock of. -/
def MediaCall.Foot : MediaCall → Task MediaResult → Blobs
  | .store media, task => fun repo id =>
    ⟨.data, media.hash, true⟩ ∈ task.held ∧ sectionBlobs media.hash media.id repo id
  | .delete _ mediaID, task => fun repo id =>
    ∃ hash, ⟨.data, hash, true⟩ ∈ task.held ∧ sectionBlobs hash mediaID repo id
  | .fetch _ _, _ => fun _ _ => False

/-- The invariant of the media calls `calls` run side by side: the repositories are in step with
the live media through `V`, which they match outside the sections under way, and each task is
at one of its places. The media that can be live, `known`, are plain, and their ids determine
their hashes. -/
structure Serial (cfg : MediaConfig) (sha256 : Bytes → Bytes) (known : List Media)
    (calls : List MediaCall) (live : List Media) (V : Repos) (w : World MediaResult) : Prop where
  plain : ∀ m ∈ known, m.Plain
  unique : IdsDetermineHashes known
  stored : ∀ (i : Nat) (media : Media), calls[i]? = some (.store media) → media ∈ known
  represents : Represents live V
  liveKnown : ∀ m ∈ live, m ∈ known
  settled : ∀ repo id, V.get repo id = w.repos.get repo id ∨
    ∃ (i : Nat) (call : MediaCall) (task : Task MediaResult), calls[i]? = some call ∧ w.tasks[i]? = some task ∧ call.Foot task repo id
  exclusive : w.LocksExclusive
  length : w.tasks.length = calls.length
  at_ : ∀ (i : Nat) (call : MediaCall) (task : Task MediaResult), calls[i]? = some call → w.tasks[i]? = some task →
    call.At cfg sha256 known live V w.repos task

/-- Whether a task holds the exclusive lock of a content blob, as a `Store` or a `Delete` does
inside its section. -/
def Task.inSection (task : Task α) : Bool :=
  task.held.any fun h => h.repo == .data && h.exclusive

/-- The live media after task `i` steps from `w` to `w'`. A call takes effect on them as it does
alone, at the step where its task releases the data lock of its section. -/
def liveStep (cfg : MediaConfig) (calls : List MediaCall) (live : List Media) (w w' : World MediaResult)
    (i : Nat) : List Media :=
  match calls[i]?, w.tasks[i]?, w'.tasks[i]? with
  | some call, some task, some task' =>
    if task.inSection && !task'.inSection then indexStep cfg live call else live
  | _, _, _ => live

/-- The live media along a schedule from `w`, in the order the calls' sections end. -/
def liveAlong (cfg : MediaConfig) (calls : List MediaCall) (live : List Media) (w : World MediaResult) :
    List Nat → List Media
  | [] => live
  | i :: schedule =>
    match w.step i with
    | some w' => liveAlong cfg calls (liveStep cfg calls live w w' i) w' schedule
    | none => live

theorem MetaRead.names {known live : List Media} {meta : MediaMeta} {mediaID : BlobID}
    (plain : ∀ m ∈ known, m.Plain) (read : MetaRead known live meta mediaID) :
    ∃ media ∈ known, media.id = mediaID ∧ media.hash = meta.hash := by
  obtain ⟨media, member, named, rfl, -⟩ := read
  exact ⟨media, member, named, ((plain media member).sanitize).1.symm⟩

/-- What a `Delete` has read stays true when a delete removes the media of an id. -/
theorem MetaRead.filter {known live : List Media} {meta : MediaMeta} {mediaID : BlobID} (id : BlobID)
    (read : MetaRead known live meta mediaID) :
    MetaRead known (live.filter (·.id != id)) meta mediaID := by
  obtain ⟨media, member, rfl, rfl, state⟩ := read
  refine ⟨media, member, rfl, rfl, ?_⟩
  by_cases same : media.id = id
  · exact .inr (by simp [same])
  · refine state.imp (fun inLive => List.mem_filter.mpr ⟨inLive, by simpa using same⟩) fun gone => ?_
    simp only [List.mem_map, List.mem_filter, not_exists, not_and] at gone ⊢
    exact fun m member => gone m member.1

/-- A task inside a section on `hash` for the id `id`: it holds the exclusive data lock of the
hash and a lock on the metadata blob of the id, shared only when a known media with that id has
that hash. -/
def SectionHeld (known : List Media) (task : Task MediaResult) (hash id : BlobID) : Prop :=
  ⟨.data, hash, true⟩ ∈ task.held ∧ ∃ exclusive, ⟨.meta, id, exclusive⟩ ∈ task.held ∧
    (exclusive = false → ∃ media ∈ known, media.id = id ∧ media.hash = hash)

/-- Two tasks whose locks do not exclude each other hold sections on disjoint blobs. -/
theorem SectionHeld.disjoint {known : List Media} (unique : IdsDetermineHashes known)
    {ti tj : Task MediaResult}
    (apart : ∀ h ∈ ti.held, ∀ h' ∈ tj.held, h.blocks h'.repo h'.id h'.exclusive = false)
    {hash id hash' id' : BlobID} (held : SectionHeld known ti hash id)
    (held' : SectionHeld known tj hash' id') :
    ∀ repo other, sectionBlobs hash id repo other → ¬ sectionBlobs hash' id' repo other := by
  have hashes : hash ≠ hash' := fun same => by
    simpa [HeldLock.blocks, same] using apart _ held.1 _ held'.1
  obtain ⟨exclusive, metaLock, named⟩ := held.2
  obtain ⟨exclusive', metaLock', named'⟩ := held'.2
  have ids : id ≠ id' := by
    rintro rfl
    obtain ⟨rfl, rfl⟩ : exclusive = false ∧ exclusive' = false := by
      simpa [HeldLock.blocks] using apart _ metaLock _ metaLock'
    obtain ⟨media, member, same, rfl⟩ := named rfl
    obtain ⟨media', member', same', rfl⟩ := named' rfl
    exact hashes (unique media member media' member' (same.trans same'.symm))
  rintro repo other (⟨rfl, rfl⟩ | ⟨rfl, rfl⟩ | ⟨rfl, rfl⟩) <;> simp [sectionBlobs, hashes, ids]

section At

variable {cfg : MediaConfig} {sha256 : Bytes → Bytes} {known live live' : List Media}
  {V V' repos repos' : Repos} {call : MediaCall} {task : Task MediaResult}

theorem MediaCall.not_foot (call : MediaCall) (noData : ∀ h ∈ task.held, h.repo ≠ .data) :
    ∀ repo id, ¬ call.Foot task repo id := by
  intro repo id foot
  cases call with
  | store media => exact noData _ foot.1 rfl
  | delete caller mediaID => exact noData _ foot.choose_spec.1 rfl
  | fetch => exact foot

theorem MediaCall.foot_congr {task' : Task MediaResult} (held : task'.held = task.held) :
    call.Foot task' = call.Foot task := by
  cases call <;> simp only [MediaCall.Foot, held]

theorem MediaCall.At.sectionHeld (plain : ∀ m ∈ known, m.Plain)
    (at_ : call.At cfg sha256 known live V repos task) {repo : RepoName} {id : BlobID}
    (foot : call.Foot task repo id) :
    ∃ hash mediaID, SectionHeld known task hash mediaID ∧ sectionBlobs hash mediaID repo id := by
  cases call with
  | store media =>
    obtain ⟨dataLock, inside⟩ := foot
    refine ⟨_, _, ⟨dataLock, true, ?_, nofun⟩, inside⟩
    cases at_ <;> simp at dataLock ⊢
  | delete caller mediaID =>
    obtain ⟨hash, dataLock, inside⟩ := foot
    cases at_ with
    | inSection read =>
      obtain rfl : hash = _ := by simpa using dataLock
      exact ⟨_, _, ⟨dataLock, false, by simp, fun _ => read.names plain⟩, inside⟩
    | _ => simp at dataLock
  | fetch => exact foot.elim

/-- A place stays a place when the state the repositories are in step with moves on its blobs'
outside, the repositories change outside them, and the live media change as the locks the task
holds allow. -/
theorem MediaCall.At.reframe (at_ : call.At cfg sha256 known live V repos task)
    (agreeV : ∀ repo id, call.Foot task repo id → V.get repo id = V'.get repo id)
    (agreeRepos : ∀ repo id, call.Foot task repo id → repos'.get repo id = repos.get repo id)
    (listed : ∀ id, ⟨.meta, id, true⟩ ∈ task.held → id ∈ live.map Media.id → id ∈ live'.map Media.id)
    (read : ∀ id meta, ⟨.meta, id, false⟩ ∈ task.held → MetaRead known live meta id →
      MetaRead known live' meta id) :
    call.At cfg sha256 known live' V' repos' task := by
  cases call with
  | store media =>
    cases at_ with
    | start => exact .start
    | metaLocked fits => exact .metaLocked fits
    | inSection fits solo agree =>
      obtain ⟨after', solo', moved⟩ :=
        solo.transport (storeSection_within media) fun repo id inside => agreeV repo id ⟨by simp, inside⟩
      exact .inSection fits solo' fun repo id inside =>
        ((moved repo id inside).symm.trans (agree repo id inside)).trans (agreeRepos repo id ⟨by simp, inside⟩).symm
    | stored present => exact .stored (listed _ (by simp) present)
    | done result => exact .done result
  | delete caller mediaID =>
    cases at_ with
    | start => exact .start
    | metaLocked => exact .metaLocked
    | checked metaRead owner => exact .checked (read _ _ (by simp) metaRead) owner
    | inSection metaRead owner solo agree =>
      obtain ⟨after', solo', moved⟩ :=
        solo.transport (deleteSection_within _ _) fun repo id inside => agreeV repo id ⟨_, by simp, inside⟩
      exact .inSection (read _ _ (by simp) metaRead) owner solo' fun repo id inside =>
        ((moved repo id inside).symm.trans (agree repo id inside)).trans
          (agreeRepos repo id ⟨_, by simp, inside⟩).symm
    | released result => exact .released result
    | done result => exact .done result
  | fetch => exact at_

/-- A task that has the metadata blob of `id` unsettled without an exclusive lock on it is in a
delete section, which can only have deleted that blob. -/
theorem MediaCall.At.meta_spared (at_ : call.At cfg sha256 known live V repos task) {id : BlobID}
    (foot : call.Foot task .meta id) (shared : ⟨.meta, id, true⟩ ∉ task.held) :
    repos.get .meta id = V.get .meta id ∨ repos.get .meta id = none := by
  cases call with
  | store media =>
    obtain ⟨dataLock, inside⟩ := foot
    obtain rfl : id = media.id := by simpa [sectionBlobs] using inside
    cases at_ <;> simp at dataLock shared
  | delete caller mediaID =>
    obtain ⟨hash, dataLock, inside⟩ := foot
    cases at_ with
    | inSection _ _ solo agree =>
      obtain rfl : hash = _ := by simpa using dataLock
      obtain rfl : id = mediaID := by simpa [sectionBlobs] using inside
      rw [← agree .meta id inside]
      exact solo.spares (deleteSection_spares _ _)
    | _ => simp at dataLock
  | fetch => exact foot.elim

end At

/-- A `Delete` of `mediaID` that had not returned in `w₁` has removed its media by `w`: it is
about to return `ok`, or has. -/
def DeletedSince (calls : List MediaCall) (w₁ w : World MediaResult) (mediaID : BlobID) : Prop :=
  ∃ (j : Nat) (caller : Caller) (result : Bool × BlobID), calls[j]? = some (.delete caller mediaID) ∧
    w₁.tasks[j]?.bind Task.returned = none ∧
    (w.tasks[j]? = some ⟨Prog.wrap (Prog.pure ∘ MediaResult.deleted) [⟨.meta, mediaID, false⟩]
        (.pure (.ok result)), [⟨.meta, mediaID, false⟩], .idle⟩ ∨
      w.tasks[j]?.bind Task.returned = some (.deleted (.ok result)))

/-- A `Delete` of `mediaID` has removed its media and has yet to release its metadata lock, which
returns the result. -/
def DeleteReleased (calls : List MediaCall) (w : World MediaResult) (mediaID : BlobID) : Prop :=
  ∃ (j : Nat) (caller : Caller) (result : Bool × BlobID), calls[j]? = some (.delete caller mediaID) ∧
    w.tasks[j]? = some ⟨Prog.wrap (Prog.pure ∘ MediaResult.deleted) [⟨.meta, mediaID, false⟩] (.pure (.ok result)),
      [⟨.meta, mediaID, false⟩], .idle⟩

section Steps

variable {cfg : MediaConfig} {sha256 : Bytes → Bytes} {known : List Media} {calls : List MediaCall}
  {live live' : List Media} {V V' : Repos} {w w' : World MediaResult} {i : Nat} {call : MediaCall}
  {task task' : Task MediaResult}

theorem getElem?_set_found {α : Type} {l : List α} {a b : α} (found : l[i]? = some a) :
    (l.set i b)[i]? = some b :=
  List.getElem?_set_self (List.getElem?_eq_some_iff.mp found).1

theorem liveStep_set (called : calls[i]? = some call) (found : w.tasks[i]? = some task)
    (tasks : w'.tasks = w.tasks.set i task') :
    liveStep cfg calls live w w' i = if task.inSection && !task'.inSection then indexStep cfg live call else live := by
  simp only [liveStep, called, found, tasks, getElem?_set_found found]

/-- A step that ends no section leaves the live media as they are. -/
theorem liveStep_of_stays (called : calls[i]? = some call) (found : w.tasks[i]? = some task)
    (tasks : w'.tasks = w.tasks.set i task') (stays : task.inSection = false ∨ task'.inSection = true) :
    liveStep cfg calls live w w' i = live := by
  rw [liveStep_set called found tasks]
  rcases stays with stays | stays <;> simp [stays]

/-- The step that ends a call's section applies the call to the live media. -/
theorem liveStep_of_leaves (called : calls[i]? = some call) (found : w.tasks[i]? = some task)
    (tasks : w'.tasks = w.tasks.set i task') (entered : task.inSection = true) (left : task'.inSection = false) :
    liveStep cfg calls live w w' i = indexStep cfg live call := by
  rw [liveStep_set called found tasks, entered, left]
  rfl

theorem inSection_of_shared {task : Task α} (shared : ∀ h ∈ task.held, h.exclusive = false) :
    task.inSection = false := by
  simpa [Task.inSection] using fun h member _ => shared h member

theorem index_ne_of_foot (called : calls[i]? = some call) (found : w.tasks[i]? = some task)
    {repo : RepoName} {id : BlobID} (outside : ¬ call.Foot task repo id) {j : Nat} {call' : MediaCall}
    {tj : Task MediaResult} (called' : calls[j]? = some call') (found' : w.tasks[j]? = some tj)
    (foot : call'.Foot tj repo id) : i ≠ j := by
  rintro rfl
  obtain rfl := Option.some_inj.mp (called.symm.trans called')
  obtain rfl := Option.some_inj.mp (found.symm.trans found')
  exact outside foot

namespace Serial

theorem foot_disjoint (serial : Serial cfg sha256 known calls live V w) {j : Nat} (differ : i ≠ j)
    {call' : MediaCall} {tj : Task MediaResult} (called : calls[i]? = some call)
    (found : w.tasks[i]? = some task) (called' : calls[j]? = some call') (found' : w.tasks[j]? = some tj)
    {repo : RepoName} {id : BlobID} (foot : call.Foot task repo id) (foot' : call'.Foot tj repo id) : False := by
  obtain ⟨hash, mediaID, held, inside⟩ := (serial.at_ i call task called found).sectionHeld serial.plain foot
  obtain ⟨hash', mediaID', held', inside'⟩ :=
    (serial.at_ j call' tj called' found').sectionHeld serial.plain foot'
  exact SectionHeld.disjoint serial.unique (serial.exclusive i j task tj differ found found') held held'
    repo id inside inside'

/-- A task that enters a section, taking its locks, finds the section's blobs settled. -/
theorem agree_entered (serial : Serial cfg sha256 known calls live V w) (called : calls[i]? = some call)
    (found : w.tasks[i]? = some task) (outside : ∀ repo id, ¬ call.Foot task repo id)
    (stepped : w.step i = some w') (tasks : w'.tasks = w.tasks.set i task') {hash id : BlobID}
    (entered : SectionHeld known task' hash id) : Repos.Agree (sectionBlobs hash id) V w.repos := by
  intro repo other inside
  rcases serial.settled repo other with same | ⟨j, call', tj, called', found', foot⟩
  · exact same
  have differ := index_ne_of_foot called found (outside _ _) called' found' foot
  obtain ⟨hash', id', held', inside'⟩ := (serial.at_ j call' tj called' found').sectionHeld serial.plain foot
  have apart := serial.exclusive.step stepped i j task' tj differ (by rw [tasks, getElem?_set_found found])
    (by rw [tasks, List.getElem?_set_ne differ, found'])
  exact (SectionHeld.disjoint serial.unique apart entered held' repo other inside inside').elim

/-- While a task outside any section holds a shared lock on the metadata blob of `id`, the
repositories hold there what `V` holds, or nothing. -/
theorem meta_current (serial : Serial cfg sha256 known calls live V w) (called : calls[i]? = some call)
    (found : w.tasks[i]? = some task) (outside : ∀ repo id, ¬ call.Foot task repo id) {id : BlobID}
    (locked : ⟨.meta, id, false⟩ ∈ task.held) :
    w.repos.get .meta id = V.get .meta id ∨ w.repos.get .meta id = none := by
  rcases serial.settled .meta id with same | ⟨j, call', tj, called', found', foot⟩
  · exact .inl same.symm
  have differ := index_ne_of_foot called found (outside _ _) called' found' foot
  refine (serial.at_ j call' tj called' found').meta_spared foot fun exclusive => ?_
  simpa [HeldLock.blocks] using serial.exclusive i j task tj differ found found' _ locked _ exclusive

theorem index_lt (serial : Serial cfg sha256 known calls live V w) (called : calls[i]? = some call) :
    i < w.tasks.length :=
  serial.length ▸ (List.getElem?_eq_some_iff.mp called).1

/-- The invariant after a step of task `i`, from what holds of task `i` and of the others. -/
theorem of_set (serial : Serial cfg sha256 known calls live V w) (called : calls[i]? = some call)
    (tasks : w'.tasks = w.tasks.set i task') (exclusive : w'.LocksExclusive)
    (represents : Represents live' V') (liveKnown : ∀ m ∈ live', m ∈ known)
    (settled : ∀ repo id, V'.get repo id = w'.repos.get repo id ∨ call.Foot task' repo id ∨
      ∃ j ≠ i, ∃ (call' : MediaCall) (tj : Task MediaResult),
        calls[j]? = some call' ∧ w.tasks[j]? = some tj ∧ call'.Foot tj repo id)
    (at' : call.At cfg sha256 known live' V' w'.repos task')
    (others : ∀ j ≠ i, ∀ (call' : MediaCall) (tj : Task MediaResult), calls[j]? = some call' →
      w.tasks[j]? = some tj → call'.At cfg sha256 known live V w.repos tj →
        call'.At cfg sha256 known live' V' w'.repos tj) :
    Serial cfg sha256 known calls live' V' w' where
  plain := serial.plain
  unique := serial.unique
  stored := serial.stored
  represents := represents
  liveKnown := liveKnown
  settled repo id := by
    rcases settled repo id with same | mine | ⟨j, differ, call', tj, called', found', foot⟩
    · exact .inl same
    · exact .inr ⟨i, call, task', called, by rw [tasks, List.getElem?_set_self (serial.index_lt called)], mine⟩
    · exact .inr ⟨j, call', tj, called', by rw [tasks, List.getElem?_set_ne (Ne.symm differ), found'], foot⟩
  exclusive := exclusive
  length := by rw [tasks, List.length_set, serial.length]
  at_ j call' tj called' found' := by
    by_cases same : i = j
    · subst same
      obtain rfl := Option.some_inj.mp (called.symm.trans called')
      rw [tasks, List.getElem?_set_self (serial.index_lt called), Option.some_inj] at found'
      exact found' ▸ at'
    · rw [tasks, List.getElem?_set_ne same] at found'
      exact others j (Ne.symm same) call' tj called' found' (serial.at_ j call' tj called' found')

/-- A step that changes no blob, by a task with no unsettled blob. -/
theorem quiet (serial : Serial cfg sha256 known calls live V w) (called : calls[i]? = some call)
    (found : w.tasks[i]? = some task) (outside : ∀ repo id, ¬ call.Foot task repo id)
    (stepped : w.step i = some w') (repos : w'.repos = w.repos) (tasks : w'.tasks = w.tasks.set i task')
    (at' : call.At cfg sha256 known live V w.repos task') : Serial cfg sha256 known calls live V w' :=
  serial.of_set called tasks (serial.exclusive.step stepped) serial.represents serial.liveKnown
    (fun repo id => by
      rw [repos]
      rcases serial.settled repo id with same | ⟨j, call', tj, called', found', foot⟩
      · exact .inl same
      · exact .inr (.inr ⟨j, (index_ne_of_foot called found (outside _ _) called' found' foot).symm,
          call', tj, called', found', foot⟩))
    (by rwa [repos]) fun _ _ _ _ _ _ at_ => by rwa [repos]

/-- A step of a task inside its section that changes only blobs of the section. -/
theorem write (serial : Serial cfg sha256 known calls live V w) (called : calls[i]? = some call)
    (found : w.tasks[i]? = some task) (stepped : w.step i = some w') (tasks : w'.tasks = w.tasks.set i task')
    (held : task'.held = task.held)
    (frame : ∀ repo id, ¬ call.Foot task repo id → w'.repos.get repo id = w.repos.get repo id)
    (at' : call.At cfg sha256 known live V w'.repos task') : Serial cfg sha256 known calls live V w' :=
  serial.of_set called tasks (serial.exclusive.step stepped) serial.represents serial.liveKnown
    (fun repo id => by
      rw [MediaCall.foot_congr held]
      by_cases mine : call.Foot task repo id
      · exact .inr (.inl mine)
      rw [frame repo id mine]
      rcases serial.settled repo id with same | ⟨j, call', tj, called', found', foot⟩
      · exact .inl same
      · exact .inr (.inr ⟨j, (index_ne_of_foot called found mine called' found' foot).symm,
          call', tj, called', found', foot⟩))
    at' fun j differ call' tj called' found' at_ =>
      at_.reframe (fun _ _ _ => rfl)
        (fun repo id foot' => frame repo id fun foot =>
          serial.foot_disjoint (Ne.symm differ) called found called' found' foot foot')
        (fun _ _ => id) fun _ _ _ => id

/-- The step that ends a section: the task releases its data lock, and the live media and `V`
move on to what its section did. -/
theorem linearize (serial : Serial cfg sha256 known calls live V w) (called : calls[i]? = some call)
    (found : w.tasks[i]? = some task) (stepped : w.step i = some w') (repos : w'.repos = w.repos)
    (tasks : w'.tasks = w.tasks.set i task') (represents : Represents live' V')
    (liveKnown : ∀ m ∈ live', m ∈ known)
    (inside : ∀ repo id, call.Foot task repo id → V'.get repo id = w.repos.get repo id)
    (frame : ∀ repo id, ¬ call.Foot task repo id → V'.get repo id = V.get repo id)
    (listed : ∀ j ≠ i, ∀ tj : Task MediaResult, w.tasks[j]? = some tj → ∀ id, ⟨.meta, id, true⟩ ∈ tj.held →
      id ∈ live.map Media.id → id ∈ live'.map Media.id)
    (read : ∀ j ≠ i, ∀ tj : Task MediaResult, w.tasks[j]? = some tj → ∀ id meta,
      ⟨.meta, id, false⟩ ∈ tj.held → MetaRead known live meta id → MetaRead known live' meta id)
    (at' : call.At cfg sha256 known live' V' w.repos task') : Serial cfg sha256 known calls live' V' w' :=
  serial.of_set called tasks (serial.exclusive.step stepped) represents liveKnown
    (fun repo id => by
      rw [repos]
      by_cases mine : call.Foot task repo id
      · exact .inl (inside repo id mine)
      rw [frame repo id mine]
      rcases serial.settled repo id with same | ⟨j, call', tj, called', found', foot⟩
      · exact .inl same
      · exact .inr (.inr ⟨j, (index_ne_of_foot called found mine called' found' foot).symm,
          call', tj, called', found', foot⟩))
    (by rwa [repos]) fun j differ call' tj called' found' at_ => by
      rw [repos]
      exact at_.reframe
        (fun repo id foot' => (frame repo id fun foot =>
          serial.foot_disjoint (Ne.symm differ) called found called' found' foot foot').symm)
        (fun _ _ _ => rfl) (listed j differ tj found') (read j differ tj found')

/-- A step of a `Store`. Its section's end adds its media to the live media unless the id is
live already. -/
theorem step_store (serial : Serial cfg sha256 known calls live V w) {media : Media}
    (called : calls[i]? = some (.store media)) (found : w.tasks[i]? = some task)
    (stepped : w.step i = some w') :
    ∃ live' V', liveStep cfg calls live w w' i = live' ∧ Serial cfg sha256 known calls live' V' w' ∧
      ∀ id ∈ live.map Media.id, id ∈ live'.map Media.id := by
  have known_media := serial.stored i media called
  cases serial.at_ i _ task called found with
  | start =>
    by_cases large : media.size > cfg.maxSize
    · have returned : (MediaCall.store media).prog cfg sha256 = .pure (.stored (.error .mediaTooLarge)) := by
        simp only [MediaCall.prog, store, if_pos large]
        rfl
      rw [returned] at found
      simp [World.step_pure found] at stepped
    · rw [MediaCall.prog, store_eq cfg media large] at found
      obtain ⟨-, rfl⟩ := World.step_wrap_withLock found stepped
      exact ⟨live, V, liveStep_of_stays called found rfl (.inl rfl),
        serial.quiet called found (MediaCall.not_foot _ (by simp)) stepped rfl rfl (.metaLocked large), fun _ => id⟩
  | metaLocked fits =>
    obtain ⟨-, rfl⟩ := World.step_wrap_withLock found stepped
    exact ⟨live, V, liveStep_of_stays called found rfl (.inl rfl),
      serial.quiet called found (MediaCall.not_foot _ (by simp)) stepped rfl rfl (.inSection fits .refl (serial.agree_entered called found (MediaCall.not_foot _ (by simp)) stepped rfl
        ⟨by simp, true, by simp, nofun⟩)), fun _ => id⟩
  | @inSection fits cur phase after solo agree =>
    cases cur with
    | call op next =>
      have touches := (solo.calls (storeSection_within media)).1
      obtain ⟨task', advanced, tasks⟩ := World.step_wrap_touches found touches stepped
      obtain ⟨after', alone, agree'⟩ :=
        Task.advance_agree touches (fun repo id inside => (agree repo id inside).symm) advanced
      exact ⟨live, V, liveStep_of_stays called found tasks (.inr rfl), serial.write called found stepped tasks rfl
        (fun repo id outside => Task.advance_frame touches advanced repo id fun inside => outside ⟨by simp, inside⟩)
        (.inSection fits (solo.step alone) fun repo id inside => (agree' repo id inside).symm), fun _ => id⟩
    | pure result =>
      obtain rfl := World.step_wrap_release found stepped
      have effect := serial.represents.exec_storeSection fits fun m member same =>
        serial.unique m (serial.liveKnown m member) media known_media same
      rw [ServiceM.exec, solo.run_eq, Prod.mk.injEq] at effect
      obtain ⟨rfl, rfl⟩ := effect
      have grows : ∀ id ∈ live.map Media.id,
          id ∈ (if media.id ∈ live.map Media.id then live else live ++ [media]).map Media.id := by
        intro id member
        split_ifs <;> simp [member]
      refine ⟨_, _, ?_, serial.linearize called found stepped rfl rfl ?_ ?_ (fun repo id foot => agree repo id foot.2)
        (fun repo id outside => solo.frame (storeSection_within media) repo id fun inside => outside ⟨by simp, inside⟩)
        (fun _ _ _ _ id _ member => grows id member) (fun j differ tj found' id meta locked read => ?_)
        (.stored ?_), grows⟩
      · rw [liveStep_of_leaves called found rfl (by rfl) (by rfl)]
        simp only [indexStep, fits, false_or]
      · split_ifs with present
        · exact serial.represents
        · exact serial.represents.store_new (serial.plain media known_media) present
      · intro m member
        split_ifs at member
        · exact serial.liveKnown m member
        · rcases List.mem_append.mp member with old | new
          · exact serial.liveKnown m old
          · exact List.mem_singleton.mp new ▸ known_media
      · have apart : id ≠ media.id := fun same => by
          simpa [HeldLock.blocks, same] using
            serial.exclusive i j _ tj (Ne.symm differ) found found' ⟨.meta, media.id, true⟩ (by simp) _ locked
        obtain ⟨m, member, rfl, rfl, state⟩ := read
        refine ⟨m, member, rfl, rfl, state.imp (fun inLive => ?_) fun gone => ?_⟩
        · split_ifs
          exacts [inLive, List.mem_append_left _ inLive]
        · split_ifs
          exacts [gone, by simpa [apart] using gone]
      · split_ifs with present
        exacts [present, by simp]
  | stored present =>
    obtain rfl := World.step_wrap_release found stepped
    exact ⟨live, V, liveStep_of_stays called found rfl (.inl rfl),
      serial.quiet called found (MediaCall.not_foot _ (by simp)) stepped rfl rfl (.done (.ok ())), fun _ => id⟩
  | done result => simp [World.step_pure found] at stepped

/-- A step of a `Delete`. Its section's end removes the live media of its id, if there is one. -/
theorem step_delete (serial : Serial cfg sha256 known calls live V w) {caller : Caller} {mediaID : BlobID}
    (called : calls[i]? = some (.delete caller mediaID)) (found : w.tasks[i]? = some task)
    (stepped : w.step i = some w') :
    ∃ live' V', liveStep cfg calls live w w' i = live' ∧ Serial cfg sha256 known calls live' V' w' ∧
      ∀ id ∈ live.map Media.id, id ∈ live'.map Media.id ∨ DeleteReleased calls w' id := by
  cases serial.at_ i _ task called found with
  | start =>
    rw [MediaCall.prog, delete_eq] at found
    obtain ⟨-, rfl⟩ := World.step_wrap_withLock found stepped
    exact ⟨live, V, liveStep_of_stays called found rfl (.inl rfl),
      serial.quiet called found (MediaCall.not_foot _ (by simp)) stepped rfl rfl .metaLocked, fun _ => .inl⟩
  | metaLocked =>
    have current := serial.meta_current called found (MediaCall.not_foot _ (by simp))
      (List.mem_singleton_self (⟨.meta, mediaID, false⟩ : HeldLock))
    rw [deleteChecked_run] at found
    obtain ⟨task', advanced, tasks⟩ :=
      World.step_wrap_touches (P := fun repo id => repo = .meta ∧ id = mediaID) found ⟨rfl, rfl⟩ stepped
    cases fetched : w.repos.get .meta mediaID with
    | none =>
      simp only [Task.advance, RepoOp.apply, fetched, Option.some.injEq, Prod.mk.injEq] at advanced
      obtain ⟨rfl, repos⟩ := advanced
      exact ⟨live, V, liveStep_of_stays called found tasks (.inl rfl),
        serial.quiet called found (MediaCall.not_foot _ (by simp)) stepped repos.symm tasks
        (.released (.error .notFound)), fun _ => .inl⟩
    | some body =>
      simp only [Task.advance, RepoOp.apply, fetched, Option.some.injEq, Prod.mk.injEq] at advanced
      obtain ⟨rfl, repos⟩ := advanced
      have stored : V.meta mediaID = some body := by
        rw [fetched] at current
        exact (current.resolve_right nofun).symm
      rw [serial.represents.meta] at stored
      obtain ⟨media, findSome, rfl⟩ := Option.map_eq_some'.mp stored
      have member := List.mem_of_find?_eq_some findSome
      have named : media.id = mediaID := by simpa using List.find?_some findSome
      by_cases owner : caller ≠ some media.meta.sanitize.owner
      · have refused : afterFetch caller mediaID (.ok media.meta.toJson) = .pure (.error .unauthorized) := by
          simp only [afterFetch, newMediaMetaFromBlob_toJson, if_pos owner]
        rw [refused] at tasks
        exact ⟨live, V, liveStep_of_stays called found tasks (.inl rfl),
          serial.quiet called found (MediaCall.not_foot _ (by simp)) stepped repos.symm tasks
          (.released (.error .unauthorized)), fun _ => .inl⟩
      · have accepted : afterFetch caller mediaID (.ok media.meta.toJson) =
            (withLock .data media.meta.sanitize.hash true (deleteSection media.meta.sanitize mediaID)).run := by
          simp only [afterFetch, newMediaMetaFromBlob_toJson, if_neg owner]
        rw [accepted] at tasks
        exact ⟨live, V, liveStep_of_stays called found tasks (.inl rfl),
          serial.quiet called found (MediaCall.not_foot _ (by simp)) stepped repos.symm tasks
          (.checked ⟨media, serial.liveKnown media member, named, rfl, .inl member⟩ (not_not.mp owner)),
          fun _ => .inl⟩
  | checked read owner =>
    obtain ⟨-, rfl⟩ := World.step_wrap_withLock found stepped
    exact ⟨live, V, liveStep_of_stays called found rfl (.inl rfl),
      serial.quiet called found (MediaCall.not_foot _ (by simp)) stepped rfl rfl (.inSection read owner .refl (serial.agree_entered called found (MediaCall.not_foot _ (by simp)) stepped rfl
        ⟨by simp, false, by simp, fun _ => read.names serial.plain⟩)), fun _ => .inl⟩
  | @inSection meta read owner cur phase after solo agree =>
    cases cur with
    | call op next =>
      have touches := (solo.calls (deleteSection_within meta mediaID)).1
      obtain ⟨task', advanced, tasks⟩ := World.step_wrap_touches found touches stepped
      obtain ⟨after', alone, agree'⟩ :=
        Task.advance_agree touches (fun repo id inside => (agree repo id inside).symm) advanced
      exact ⟨live, V, liveStep_of_stays called found tasks (.inr rfl), serial.write called found stepped tasks rfl
        (fun repo id outside => Task.advance_frame touches advanced repo id fun inside => outside ⟨_, by simp, inside⟩)
        (.inSection read owner (solo.step alone) fun repo id inside => (agree' repo id inside).symm), fun _ => .inl⟩
    | pure result =>
      obtain rfl := World.step_wrap_release found stepped
      have inside (repo id) (foot : (MediaCall.delete caller mediaID).Foot ⟨Prog.wrap (Prog.pure ∘ MediaResult.deleted)
          [⟨.data, meta.hash, true⟩, ⟨.meta, mediaID, false⟩] (.pure result),
          [⟨.data, meta.hash, true⟩, ⟨.meta, mediaID, false⟩], phase⟩ repo id) : after.get repo id = w.repos.get repo id := by
        obtain ⟨hash, dataLock, foot⟩ := foot
        obtain rfl : hash = meta.hash := by simpa using dataLock
        exact agree repo id foot
      obtain ⟨media, member, named, rfl, inLive | gone⟩ := read
      · subst named
        have effect := serial.represents.exec_deleteSection inLive
        rw [ServiceM.exec, solo.run_eq, Prod.mk.injEq] at effect
        obtain ⟨rfl, rfl⟩ := effect
        refine ⟨_, _, ?_, serial.linearize called found stepped rfl rfl (serial.represents.delete_live inLive)
          (fun m kept => serial.liveKnown m (List.mem_of_mem_filter kept)) inside
          (fun repo id outside => solo.frame (deleteSection_within _ _) repo id fun inside => outside ⟨_, by simp, inside⟩)
          (fun j differ tj found' id locked present => ?_) (fun _ _ _ _ _ _ _ read => read.filter _) (.released _),
          fun id present => ?_⟩
        · rw [liveStep_of_leaves called found rfl (by rfl) (by rfl)]
          simp only [indexStep, find?_live serial.represents.nodup inLive]
          exact if_pos owner
        · have apart : id ≠ media.id := fun same => by
            simpa [HeldLock.blocks, same] using
              serial.exclusive i j _ tj (Ne.symm differ) found found' ⟨.meta, media.id, false⟩ (by simp) _ locked
          obtain ⟨m, kept, rfl⟩ := List.mem_map.mp present
          exact List.mem_map.mpr ⟨m, List.mem_filter.mpr ⟨kept, by simpa using apart⟩, rfl⟩
        · by_cases same : id = media.id
          · exact .inr ⟨i, caller, _, same ▸ called, by rw [List.getElem?_set_self (serial.index_lt called), same]⟩
          · obtain ⟨m, kept, rfl⟩ := List.mem_map.mp present
            exact .inl (List.mem_map.mpr ⟨m, List.mem_filter.mpr ⟨kept, by simpa using same⟩, rfl⟩)
      · have effect := serial.represents.exec_deleteSection_gone gone (((serial.plain media member).sanitize).2.trans named)
        rw [ServiceM.exec, solo.run_eq, Prod.mk.injEq] at effect
        obtain ⟨rfl, rfl⟩ := effect
        have absent : live.find? (·.id == mediaID) = none := List.find?_eq_none.mpr fun m member same =>
          gone (List.mem_map.mpr ⟨m, member, by simpa using same⟩)
        refine ⟨live, after, ?_, serial.linearize called found stepped rfl rfl serial.represents serial.liveKnown inside
          (fun _ _ _ => rfl) (fun _ _ _ _ _ _ => id) (fun _ _ _ _ _ _ _ => id) (.released _), fun _ => .inl⟩
        rw [liveStep_of_leaves called found rfl (by rfl) (by rfl)]
        simp only [indexStep, absent]
  | released result =>
    obtain rfl := World.step_wrap_release found stepped
    exact ⟨live, V, liveStep_of_stays called found rfl (.inl rfl),
      serial.quiet called found (MediaCall.not_foot _ (by simp)) stepped rfl rfl (.done result), fun _ => .inl⟩
  | done result => simp [World.step_pure found] at stepped

theorem step_fetch (serial : Serial cfg sha256 known calls live V w) {caller : Caller} {mediaID : BlobID}
    (called : calls[i]? = some (.fetch caller mediaID)) (found : w.tasks[i]? = some task)
    (stepped : w.step i = some w') :
    liveStep cfg calls live w w' i = live ∧ Serial cfg sha256 known calls live V w' := by
  obtain ⟨reads, shared⟩ := serial.at_ i _ task called found
  obtain ⟨repos, task', tasks, reads', held⟩ := World.step_readOnly found reads stepped
  exact ⟨liveStep_of_stays called found tasks (.inl (inSection_of_shared shared)),
    serial.quiet called found (fun _ _ => id) stepped repos tasks ⟨reads', fun h member => (held h member).elim (shared h) id⟩⟩

/-- The step lemma: every step keeps the invariant, and an id leaves the live media only at the
end of the section of a `Delete` of it. -/
theorem step (serial : Serial cfg sha256 known calls live V w) (stepped : w.step i = some w') :
    ∃ V', Serial cfg sha256 known calls (liveStep cfg calls live w w' i) V' w' ∧
      ∀ id ∈ live.map Media.id, id ∈ (liveStep cfg calls live w w' i).map Media.id ∨ DeleteReleased calls w' id := by
  obtain ⟨_, _, _, _, _, found, -, -⟩ := World.step_some stepped
  cases called : calls[i]? with
  | none =>
    rw [List.getElem?_eq_none_iff, ← serial.length] at called
    simp [List.getElem?_eq_none_iff.mpr called] at found
  | some call =>
    cases call with
    | store media =>
      obtain ⟨_, V', rfl, serial', grows⟩ := serial.step_store called found stepped
      exact ⟨V', serial', fun id present => .inl (grows id present)⟩
    | fetch caller mediaID =>
      obtain ⟨same, serial'⟩ := serial.step_fetch called found stepped
      rw [same]
      exact ⟨V, serial', fun _ => .inl⟩
    | delete caller mediaID =>
      obtain ⟨_, V', rfl, serial', kept⟩ := serial.step_delete called found stepped
      exact ⟨V', serial', kept⟩

/-- A `Store` returns `nil` only by releasing its metadata lock, after its section has made its
id live. -/
theorem store_returned (serial : Serial cfg sha256 known calls live V w) {media : Media}
    (called : calls[i]? = some (.store media)) (found : w.tasks[i]? = some task) (stepped : w.step i = some w')
    (returned : w'.tasks[i]?.bind Task.returned = some (.stored (.ok ()))) : media.id ∈ live.map Media.id := by
  cases serial.at_ i _ task called found with
  | start =>
    by_cases large : media.size > cfg.maxSize
    · have refused : (MediaCall.store media).prog cfg sha256 = .pure (.stored (.error .mediaTooLarge)) := by
        simp only [MediaCall.prog, store, if_pos large]
        rfl
      rw [refused] at found
      simp [World.step_pure found] at stepped
    · rw [MediaCall.prog, store_eq cfg media large] at found
      obtain ⟨-, rfl⟩ := World.step_wrap_withLock found stepped
      simp [getElem?_set_found found] at returned
  | metaLocked =>
    obtain ⟨-, rfl⟩ := World.step_wrap_withLock found stepped
    simp [getElem?_set_found found] at returned
  | @inSection fits cur phase after solo agree =>
    cases cur with
    | call op next =>
      obtain ⟨task', -, tasks⟩ :=
        World.step_wrap_touches found (solo.calls (storeSection_within media)).1 stepped
      simp [tasks, getElem?_set_found found] at returned
    | pure result =>
      obtain rfl := World.step_wrap_release found stepped
      simp [getElem?_set_found found] at returned
  | stored present => exact present
  | done => simp [World.step_pure found] at stepped

/-- Once no task holds a lock, no blob is unsettled: the repositories are `V`. -/
theorem repos_eq (serial : Serial cfg sha256 known calls live V w)
    (quiescent : ∀ task ∈ w.tasks, task.held = []) : w.repos = V :=
  Repos.ext_get fun repo id => (serial.settled repo id).elim Eq.symm
    fun ⟨_, call, task, _, found, foot⟩ =>
      (MediaCall.not_foot call (by simp [quiescent task (List.getElem?_mem found)]) repo id foot).elim

/-- The run lemma: every schedule keeps the invariant, with the live media the calls leave in the
order their sections end. -/
theorem run (serial : Serial cfg sha256 known calls live V w) {schedule : List Nat}
    (ran : w.run schedule = some w') : ∃ V', Serial cfg sha256 known calls (liveAlong cfg calls live w schedule) V' w' := by
  induction schedule generalizing w live V with
  | nil => exact ⟨V, Option.some_inj.mp ran ▸ serial⟩
  | cons i schedule ih =>
    rw [World.run_cons] at ran
    obtain ⟨w₁, stepped, ran⟩ := Option.bind_eq_some.mp ran
    obtain ⟨V₁, serial₁, -⟩ := serial.step stepped
    simpa only [liveAlong, stepped] using ih serial₁ ran

/-- After `w₁`, an id stays live, or a `Delete` of it that had not returned in `w₁` removes it
and returns `ok`. -/
theorem step_since (serial : Serial cfg sha256 known calls live V w) {w₁ : World MediaResult}
    {first : List Nat} (since : w₁.run first = some w) {id : BlobID}
    (state : id ∈ live.map Media.id ∨ DeletedSince calls w₁ w id) (stepped : w.step i = some w') :
    ∃ live' V', Serial cfg sha256 known calls live' V' w' ∧
      (id ∈ live'.map Media.id ∨ DeletedSince calls w₁ w' id) := by
  obtain ⟨V', serial', kept⟩ := serial.step stepped
  refine ⟨_, V', serial', ?_⟩
  rcases state with present | ⟨j, caller, result, called, pending, now⟩
  · refine (kept id present).imp_right fun ⟨j, caller, result, called, found⟩ =>
      ⟨j, caller, result, called, ?_, .inl found⟩
    have ran : w₁.run (first ++ [i]) = some w' := by simp [World.run_append, since, World.run_cons, stepped]
    cases returned : w₁.tasks[j]?.bind Task.returned with
    | none => rfl
    | some value => simpa [found] using World.run_returned ran returned
  · refine .inr ⟨j, caller, result, called, pending, ?_⟩
    rcases now with released | returned
    · by_cases same : i = j
      · subst same
        obtain rfl := World.step_wrap_release released stepped
        exact .inr (by simp [getElem?_set_found released]; rfl)
      · exact .inl (by rwa [World.step_getElem?_ne stepped same])
    · exact .inr (World.step_returned stepped returned)

theorem run_since (serial : Serial cfg sha256 known calls live V w) {w₁ : World MediaResult}
    {first : List Nat} (since : w₁.run first = some w) {id : BlobID}
    (state : id ∈ live.map Media.id ∨ DeletedSince calls w₁ w id) {schedule : List Nat}
    (ran : w.run schedule = some w') :
    ∃ live' V', Serial cfg sha256 known calls live' V' w' ∧
      (id ∈ live'.map Media.id ∨ DeletedSince calls w₁ w' id) := by
  induction schedule generalizing w live V first with
  | nil => exact ⟨live, V, Option.some_inj.mp ran ▸ serial, Option.some_inj.mp ran ▸ state⟩
  | cons i schedule ih =>
    obtain ⟨w₂, stepped, ran⟩ := Option.bind_eq_some.mp ran
    obtain ⟨live₂, V₂, serial₂, state₂⟩ := serial.step_since since state stepped
    have since₂ : w₁.run (first ++ [i]) = some w₂ := by simp [World.run_append, since, World.run_cons, stepped]
    exact ih serial₂ since₂ state₂ ran

end Serial

theorem mem_storedMedia {calls : List MediaCall} {i : Nat} {media : Media}
    (called : calls[i]? = some (.store media)) : media ∈ storedMedia calls := by
  induction calls generalizing i with
  | nil => simp at called
  | cons call calls ih =>
    rw [storedMedia_cons]
    cases i with
    | zero =>
      obtain rfl := Option.some_inj.mp (List.getElem?_cons_zero.symm.trans called)
      exact List.mem_append_left _ (List.mem_singleton_self _)
    | succ i => exact List.mem_append_right _ (ih (List.getElem?_cons_succ.symm.trans called))

/-- The media calls before any step: every task at its start, in step with the live media. -/
theorem serial_start (cfg : MediaConfig) (sha256 : Bytes → Bytes) {live : List Media} {repos : Repos}
    (represents : Represents live repos) (calls : List MediaCall)
    (built : ∀ m ∈ storedMedia calls, m.Built sha256) (unique : IdsDetermineHashes (live ++ storedMedia calls)) :
    Serial cfg sha256 (live ++ storedMedia calls) calls live repos
      (World.start repos (calls.map (MediaCall.prog cfg sha256))) where
  plain m member := (List.mem_append.mp member).elim (represents.plain m) fun stored => (built m stored).plain
  unique := unique
  stored i media called := List.mem_append_right _ (mem_storedMedia called)
  represents := represents
  liveKnown m member := List.mem_append_left _ member
  settled _ _ := .inl rfl
  exclusive := World.locksExclusive_start _ _
  length := by simp [World.start]
  at_ i call task called found := by
    simp only [World.start, List.getElem?_map, called, Option.map_some', Option.some.injEq] at found
    subst found
    cases call with
    | store media => exact .start
    | delete caller mediaID => exact .start
    | fetch caller mediaID =>
      exact ⟨Prog.calls_bind (fetch_readOnly sha256 caller mediaID) fun _ => trivial, nofun⟩

end Steps


/-- Media calls run side by side from repositories in step with the live media, their steps
interleaved in any order: once no call holds a lock, the backreference index is exact for the
live media the calls leave when each takes effect, as it does alone, at the end of its section;
and a `Store` that returned `nil`, of an id that no `Delete` still running then has removed
since, has its id once in the list of its hash. -/
theorem backref_index_exact_interleaved (cfg : MediaConfig) (sha256 : Bytes → Bytes) {live : List Media}
    {repos : Repos} (represents : Represents live repos) (calls : List MediaCall)
    (built : ∀ m ∈ storedMedia calls, m.Built sha256) (unique : IdsDetermineHashes (live ++ storedMedia calls))
    (schedule : List Nat) (w : World MediaResult)
    (ran : (World.start repos (calls.map (MediaCall.prog cfg sha256))).run schedule = some w)
    (quiescent : ∀ task ∈ w.tasks, task.held = []) :
    ((∀ m ∈ liveAlong cfg calls live (World.start repos (calls.map (MediaCall.prog cfg sha256))) schedule,
        m ∈ live ++ storedMedia calls) ∧
      BackrefIndexExact (liveAlong cfg calls live (World.start repos (calls.map (MediaCall.prog cfg sha256))) schedule)
        w.repos) ∧
    ∀ (first rest : List Nat) (i : Nat) (w₀ w₁ : World MediaResult) (media : Media),
      schedule = first ++ i :: rest →
      (World.start repos (calls.map (MediaCall.prog cfg sha256))).run first = some w₀ →
      w₀.step i = some w₁ → calls[i]? = some (.store media) →
      w₁.tasks[i]?.bind Task.returned = some (.stored (.ok ())) →
      (∀ (j : Nat) (caller : Caller) (result : Bool × BlobID), calls[j]? = some (.delete caller media.id) →
        w.tasks[j]?.bind Task.returned = some (.deleted (.ok result)) →
        w₁.tasks[j]?.bind Task.returned ≠ none) →
      (backrefLines (w.repos.backref media.hash)).count media.id = 1 := by
  have start := serial_start cfg sha256 represents calls built unique
  refine ⟨?_, fun first rest i w₀ w₁ media split before stepped called returned since => ?_⟩
  · obtain ⟨V, serial⟩ := start.run ran
    rw [serial.repos_eq quiescent]
    exact ⟨serial.liveKnown, serial.represents.exact⟩
  obtain ⟨V₀, serial₀⟩ := start.run before
  obtain ⟨_, _, _, _, _, found, -, -⟩ := World.step_some stepped
  obtain ⟨V₁, serial₁, kept⟩ := serial₀.step stepped
  have state : media.id ∈ (liveStep cfg calls _ w₀ w₁ i).map Media.id ∨ DeletedSince calls w₁ w₁ media.id :=
    (kept media.id (serial₀.store_returned called found stepped returned)).imp_right
      fun ⟨j, caller, result, called', released⟩ =>
        ⟨j, caller, result, called', by simp [released], .inl released⟩
  have after : w₁.run rest = some w := by
    rwa [split, World.run_append, before, Option.some_bind, World.run_cons, stepped, Option.some_bind] at ran
  obtain ⟨liveW, VW, serialW, stateW⟩ := serial₁.run_since (World.run_nil w₁) state after
  rcases stateW with present | ⟨j, caller, result, called', pending, released | deleted⟩
  · obtain ⟨m, member, named⟩ := List.mem_map.mp present
    have listed : media.id ∈ linesOf liveW media.hash := mem_linesOf.mpr ⟨m, member,
      serialW.unique m (serialW.liveKnown m member) media (serialW.stored i media called) named, named⟩
    rw [serialW.repos_eq quiescent]
    exact (serialW.represents.exact.metaListed _ _ (serialW.represents.metaHash_eq_some.mpr listed)).2
  · exact absurd (quiescent _ (List.getElem?_mem released)) (List.cons_ne_nil _ _)
  · exact (since j caller result called' deleted pending).elim

/-- Two `Store`s of one content take their metadata locks before either enters its section, then
the owner deletes the first. -/
theorem backref_index_exact_interleaved_shared_content :
    let calls : List MediaCall := [.store (newMedia id [0x61] ⟨[], [], [], 0, [0x61], []⟩),
      .store (newMedia id [0x61] ⟨[], [], [], 0, [0x62], []⟩),
      .delete (some [0x61]) (newMedia id [0x61] ⟨[], [], [], 0, [0x61], []⟩).id]
    let schedule := [0, 1] ++ List.replicate 15 0 ++ List.replicate 13 1 ++ List.replicate 11 2
    let w := ((World.start Repos.empty (calls.map (MediaCall.prog MediaConfig.default id))).run schedule).getD
      ⟨Repos.empty, []⟩
    ((∀ m ∈ liveAlong MediaConfig.default calls []
          (World.start Repos.empty (calls.map (MediaCall.prog MediaConfig.default id))) schedule,
        m ∈ [] ++ storedMedia calls) ∧
      BackrefIndexExact (liveAlong MediaConfig.default calls []
        (World.start Repos.empty (calls.map (MediaCall.prog MediaConfig.default id))) schedule) w.repos) ∧
    ∀ (first rest : List Nat) (i : Nat) (w₀ w₁ : World MediaResult) (media : Media),
      schedule = first ++ i :: rest →
      (World.start Repos.empty (calls.map (MediaCall.prog MediaConfig.default id))).run first = some w₀ →
      w₀.step i = some w₁ → calls[i]? = some (.store media) →
      w₁.tasks[i]?.bind Task.returned = some (.stored (.ok ())) →
      (∀ (j : Nat) (caller : Caller) (result : Bool × BlobID), calls[j]? = some (.delete caller media.id) →
        w.tasks[j]?.bind Task.returned = some (.deleted (.ok result)) →
        w₁.tasks[j]?.bind Task.returned ≠ none) →
      (backrefLines (w.repos.backref media.hash)).count media.id = 1 :=
  backref_index_exact_interleaved MediaConfig.default id represents_empty _
    (by simp only [storedMedia, List.mem_cons, List.mem_singleton, List.not_mem_nil, or_false]
        rintro m (rfl | rfl) <;> exact .newMedia _ _)
    (by simp only [IdsDetermineHashes, storedMedia, List.nil_append, List.mem_cons, List.not_mem_nil, or_false]
        rintro m (rfl | rfl) m' (rfl | rfl) _ <;> rfl)
    _ _ rfl (by decide)

end Homecase
