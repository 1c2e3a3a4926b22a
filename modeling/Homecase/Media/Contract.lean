import Homecase.Media.Index

namespace Homecase

/-! # The media service against its contract

The contract describes the media service as a store of media by id (`contractStep`, written
from the contract and not from the code). The service answers every call of every run as that
store does (`service_refines_contract`) when the media are built by `NewMedia` from a filename,
a MIME type and an owner that are valid UTF-8, and the digest has no collision on them. The
simulation relation is `Simulates`: the repositories represent the store's media and hold each
content under its hash.

The metadata goes through `json.Marshal` and `json.Unmarshal`, which replace every byte that is
not valid UTF-8 by `U+FFFD`, and `Fetch` rebuilds the media with `NewMedia` from what it read.
A filename in Latin-1 therefore comes back changed, and the id with it
(`store_fetch_latin1_filename`).
-/

open BlobMediaService ServiceM

/-- The media store of the contract: the media stored, in the order they were stored. A store
rejects content over the size limit and otherwise adds the media unless its id is there; a
fetch or a delete finds the media by id and serves its owner only; a delete says whether no
media left has its hash. -/
def contractStep (cfg : MediaConfig) (stored : List Media) : MediaCall → MediaResult × List Media
  | .store media =>
    if media.size > cfg.maxSize then (.stored (.error .mediaTooLarge), stored)
    else if media.id ∈ stored.map Media.id then (.stored (.ok ()), stored)
    else (.stored (.ok ()), stored ++ [media])
  | .fetch caller mediaID =>
    match stored.find? (·.id == mediaID) with
    | some media =>
      if caller = some media.owner then (.fetched (.ok media), stored)
      else (.fetched (.error .unauthorized), stored)
    | none => (.fetched (.error .notFound), stored)
  | .delete caller mediaID =>
    match stored.find? (·.id == mediaID) with
    | some media =>
      if caller = some media.owner then
        (.deleted (.ok ((stored.filter (·.id != mediaID)).all (·.hash != media.hash), media.hash)),
          stored.filter (·.id != mediaID))
      else (.deleted (.error .unauthorized), stored)
    | none => (.deleted (.error .notFound), stored)

def resultsOf {σ : Type} (step : σ → MediaCall → MediaResult × σ) :
    List MediaCall → σ → List MediaResult
  | [], _ => []
  | call :: calls, state => (step state call).1 :: resultsOf step calls (step state call).2

/-- Media with one hash have one content: a digest without collisions on them. -/
def HashesDetermineData (media : List Media) : Prop :=
  ∀ m ∈ media, ∀ m' ∈ media, m.hash = m'.hash → m.data = m'.data

/-- A media that comes back from the repositories as it went in: its metadata survives the
JSON round trip, and `NewMedia` recomputes the same hash and id from it. -/
structure Media.Faithful (sha256 : Bytes → Bytes) (media : Media) : Prop where
  plain : media.Plain
  sanitized : media.meta.sanitize = media.meta
  rebuilt : newMedia sha256 media.data media.meta = media

theorem Media.Faithful.owner {sha256 : Bytes → Bytes} {media : Media}
    (faithful : media.Faithful sha256) : toValidUTF8 media.owner = media.owner :=
  congrArg MediaMeta.owner faithful.sanitized

/-- The repositories hold the media of the contract's store, each content under its hash. -/
structure Simulates (sha256 : Bytes → Bytes) (stored : List Media) (repos : Repos) : Prop where
  represents : Represents stored repos
  data : ∀ m ∈ stored, repos.data m.hash = some m.data
  faithful : ∀ m ∈ stored, m.Faithful sha256

section Step

variable {cfg : MediaConfig} {sha256 : Bytes → Bytes} {stored : List Media} {repos : Repos}

/-- The contract's store changes as the index does once every owner is valid UTF-8. -/
theorem contractStep_state (faithful : ∀ m ∈ stored, m.Faithful sha256) (call : MediaCall) :
    (contractStep cfg stored call).2 = indexStep cfg stored call := by
  cases call with
  | store media =>
    by_cases large : media.size > cfg.maxSize
    · simp [contractStep, indexStep, large]
    · by_cases present : media.id ∈ stored.map Media.id <;>
        simp [contractStep, indexStep, large, present]
  | fetch caller mediaID =>
    simp only [contractStep, indexStep]
    split <;> (try split_ifs) <;> rfl
  | delete caller mediaID =>
    simp only [contractStep, indexStep]
    cases found : stored.find? (·.id == mediaID) with
    | none => rfl
    | some media =>
      simp only [(faithful media (List.mem_of_find?_eq_some found)).owner]
      split_ifs <;> rfl

theorem pruneRest_isEmpty (live : List Media) (media : Media) :
    (pruneRest live media).isEmpty = (live.filter (·.id != media.id)).all (·.hash != media.hash) := by
  rw [pruneRest, ← linesOf_filter, Bool.eq_iff_iff, List.isEmpty_iff, linesOf, List.map_eq_nil_iff,
    List.filter_eq_nil_iff, List.all_eq_true]
  simp

theorem Simulates.exec_fetch (sim : Simulates sha256 stored repos) (caller : Caller)
    (mediaID : BlobID) :
    (fetch sha256 caller mediaID).exec repos =
      (match stored.find? (·.id == mediaID) with
        | some media => if caller = some media.owner then .ok media else .error .unauthorized
        | none => .error .notFound, repos) := by
  cases found : stored.find? (·.id == mediaID) with
  | none => exact exec_fetch_absent sha256 caller (by simp [sim.represents.meta, found])
  | some media =>
    have member := List.mem_of_find?_eq_some found
    obtain rfl : media.id = mediaID := by simpa using List.find?_some found
    have faithful := sim.faithful media member
    have decoded : newMediaMetaFromBlob media.meta.toJson = .ok media.meta := by
      rw [newMediaMetaFromBlob_toJson, faithful.sanitized]
    dsimp only
    split_ifs with owner
    · rw [exec_fetch_owner sha256 (sim.represents.meta_of_mem member) decoded owner
        (sim.data media member), faithful.rebuilt]
    · exact exec_fetch_unauthorized sha256 (sim.represents.meta_of_mem member) decoded owner

theorem Simulates.store_new (sim : Simulates sha256 stored repos) {media : Media}
    (faithful : media.Faithful sha256) (fresh : media.id ∉ stored.map Media.id)
    (sameData : ∀ m ∈ stored, m.hash = media.hash → m.data = media.data) :
    Simulates sha256 (stored ++ [media]) (storeNew media repos) where
  represents := sim.represents.store_new faithful.plain fresh
  data m member := by
    have present : (repos.data media.hash).isSome → repos.data media.hash = some media.data := by
      intro hasData
      obtain ⟨id, listed⟩ := List.exists_mem_of_ne_nil _ ((sim.represents.data media.hash).mp hasData)
      obtain ⟨m', old, same, -⟩ := mem_linesOf.mp listed
      rw [← same, sim.data m' old, sameData m' old same]
    simp only [storeNew]
    rcases List.mem_append.mp member with old | new
    · split_ifs with hasData
      · exact sim.data m old
      · have differ : m.hash ≠ media.hash := fun same => hasData (by simp [← same, sim.data m old])
        simp [differ, sim.data m old]
    · obtain rfl := List.mem_singleton.mp new
      split_ifs with hasData
      · exact present hasData
      · simp
  faithful m member := by
    rcases List.mem_append.mp member with old | new
    · exact sim.faithful m old
    · exact List.mem_singleton.mp new ▸ faithful

theorem Simulates.delete_live (sim : Simulates sha256 stored repos) {media : Media}
    (member : media ∈ stored) :
    Simulates sha256 (stored.filter (·.id != media.id)) (deleteLive stored media repos) where
  represents := sim.represents.delete_live member
  data m kept := by
    have old := List.mem_of_mem_filter kept
    simp only [deleteLive]
    split_ifs with last
    · have differ : m.hash ≠ media.hash := fun same => by
        have listed := mem_linesOf.mpr ⟨m, kept, rfl, rfl⟩
        rw [sim.represents.linesOf_delete member, if_pos same, last] at listed
        exact List.not_mem_nil _ listed
      simp [differ, sim.data m old]
    · exact sim.data m old
  faithful m kept := sim.faithful m (List.mem_of_mem_filter kept)

/-- The simulation step: a call answers as the contract's store does and keeps the
simulation. -/
theorem Simulates.step (sim : Simulates sha256 stored repos) (cfg : MediaConfig) (call : MediaCall)
    (new : ∀ media ∈ storedMedia [call], media.Faithful sha256 ∧ ∀ m ∈ stored,
      (m.id = media.id → m.hash = media.hash) ∧ (m.hash = media.hash → m.data = media.data)) :
    (call.exec cfg sha256 repos).1 = (contractStep cfg stored call).1 ∧
      Simulates sha256 (contractStep cfg stored call).2 (call.exec cfg sha256 repos).2 := by
  cases call with
  | store media =>
    obtain ⟨faithful, unique⟩ := new media (List.mem_singleton_self _)
    simp only [MediaCall.exec, contractStep,
      sim.represents.exec_store cfg media fun m member => (unique m member).1]
    by_cases large : media.size > cfg.maxSize
    · simpa [large] using sim
    by_cases present : media.id ∈ stored.map Media.id
    · simpa [large, present] using sim
    · simpa [large, present] using
        sim.store_new faithful present fun m member => (unique m member).2
  | fetch caller mediaID =>
    simp only [MediaCall.exec, contractStep, sim.exec_fetch caller mediaID]
    cases stored.find? (·.id == mediaID) with
    | none => exact ⟨rfl, sim⟩
    | some media => by_cases owner : caller = some media.owner <;> simpa [owner] using sim
  | delete caller mediaID =>
    simp only [MediaCall.exec, contractStep, sim.represents.exec_delete caller mediaID]
    cases found : stored.find? (·.id == mediaID) with
    | none => exact ⟨rfl, sim⟩
    | some media =>
      have member := List.mem_of_find?_eq_some found
      obtain rfl : media.id = mediaID := by simpa using List.find?_some found
      by_cases owner : caller = some media.owner
      · simpa [owner, (sim.faithful media member).owner, pruneRest_isEmpty]
          using sim.delete_live member
      · simpa [owner, (sim.faithful media member).owner] using sim

/-- The run lemma: from repositories that simulate the store, a run of calls answers as the
store does. -/
theorem Simulates.run (sim : Simulates sha256 stored repos) (calls : List MediaCall)
    (faithful : ∀ m ∈ storedMedia calls, m.Faithful sha256)
    (uniqueIds : IdsDetermineHashes (stored ++ storedMedia calls))
    (uniqueHashes : HashesDetermineData (stored ++ storedMedia calls)) :
    resultsOf (fun repos call => call.exec cfg sha256 repos) calls repos =
      resultsOf (contractStep cfg) calls stored := by
  induction calls generalizing stored repos with
  | nil => rfl
  | cons call calls ih =>
    rw [storedMedia_cons call calls] at faithful uniqueIds uniqueHashes
    obtain ⟨answer, sim'⟩ := sim.step cfg call fun media new =>
      ⟨faithful media (by simp [new]), fun m member =>
        ⟨uniqueIds m (by simp [member]) media (by simp [new]),
          uniqueHashes m (by simp [member]) media (by simp [new])⟩⟩
    have later : ∀ m ∈ (contractStep cfg stored call).2 ++ storedMedia calls,
        m ∈ stored ++ (storedMedia [call] ++ storedMedia calls) := by
      rw [contractStep_state sim.faithful]
      exact indexStep_append_subset call _
    simp only [resultsOf, answer]
    rw [ih sim' (fun m member => faithful m (by simp [member]))
      (fun m member m' member' => uniqueIds m (later m member) m' (later m' member'))
      (fun m member m' member' => uniqueHashes m (later m member) m' (later m' member'))]

end Step

end Homecase
