import Homecase.Media.Service
import Mathlib.Data.List.Nodup

namespace Homecase

/-! # The backreference index

The media service keeps three repositories in step: a metadata blob per media id, a data blob
per content hash, and per content hash a backreference blob listing the ids that use it. The
abstract state is the list of live media in the order they were stored (`indexRun`), and
`Represents` says what the three repositories hold for it. Every call keeps `Represents`
(`Represents.step`), so every run from empty repositories does (`represents_runCalls`), and
`backref_index_exact` reads the exactness of the index off it.
-/

open BlobMediaService ServiceM

/-- Ids and hashes written in the lowercase Crockford alphabet, as `NewMedia` writes them. -/
def Media.Plain (media : Media) : Prop :=
  (∀ b ∈ media.id, b ∈ crockfordLowercase) ∧ ∀ b ∈ media.hash, b ∈ crockfordLowercase

theorem crockfordLowercase_plain : ∀ b ∈ crockfordLowercase, b.val < 0x80 ∧ b ≠ 0x0A := by
  have checked : crockfordLowercase.all (fun b => b.val < 0x80 && b != 0x0A) = true := rfl
  simpa using List.all_eq_true.mp checked

/-- The ids that the backreference list of `hash` should hold: the live media with that hash,
in the order they were stored. -/
def linesOf (live : List Media) (hash : Bytes) : List BlobID :=
  (live.filter (·.hash == hash)).map Media.id

/-- The backreference blob that lists `lines`: none for an empty list. -/
def backrefOf : List BlobID → Option Bytes
  | [] => none
  | lines => some (backrefBody lines)

/-- The repositories hold exactly the live media: a metadata blob for each id, a data blob for
each hash in use, and for each such hash the list of the ids using it. -/
structure Represents (live : List Media) (repos : Repos) : Prop where
  meta : ∀ id, repos.meta id = (live.find? (·.id == id)).map (·.meta.toJson)
  data : ∀ hash, (repos.data hash).isSome ↔ linesOf live hash ≠ []
  backref : ∀ hash, repos.backref hash = backrefOf (linesOf live hash)
  nodup : (live.map Media.id).Nodup
  plain : ∀ m ∈ live, m.Plain

theorem backrefOf_of_ne_nil {lines : List BlobID} (nonempty : lines ≠ []) :
    backrefOf lines = some (backrefBody lines) := by
  match lines, nonempty with
  | _ :: _, _ => rfl

theorem backrefLines_backrefOf {lines : List BlobID} (plain : ∀ id ∈ lines, (0x0A : Byte) ∉ id) :
    backrefLines (backrefOf lines) = lines := by
  match lines with
  | [] => rfl
  | id :: rest => exact List.splitOn_intercalate _ _ plain (List.cons_ne_nil _ _)

theorem linesOf_plain {live : List Media} (plain : ∀ m ∈ live, m.Plain) (hash : Bytes) :
    ∀ id ∈ linesOf live hash, (0x0A : Byte) ∉ id := by
  intro id member newline
  simp only [linesOf, List.mem_map, List.mem_filter] at member
  obtain ⟨m, ⟨live_m, _⟩, rfl⟩ := member
  exact (crockfordLowercase_plain _ ((plain m live_m).1 _ newline)).2 rfl

theorem linesOf_append (live : List Media) (media : Media) (hash : Bytes) :
    linesOf (live ++ [media]) hash =
      linesOf live hash ++ if media.hash = hash then [media.id] else [] := by
  by_cases same : media.hash = hash <;> simp [linesOf, List.filter_append, same]

theorem linesOf_filter (live : List Media) (id : BlobID) (hash : Bytes) :
    linesOf (live.filter (·.id != id)) hash = (linesOf live hash).filter (· != id) := by
  simp only [linesOf, List.filter_map, List.filter_filter]
  congr 2
  funext m
  simp [Bool.and_comm]

theorem Represents.store_new {live : List Media} {repos : Repos} {media : Media}
    (represents : Represents live repos) (mediaPlain : media.Plain)
    (fresh : media.id ∉ live.map Media.id) :
    Represents (live ++ [media]) (storeNew media repos) where
  meta id := by
    simp only [storeNew, BlobMap.insert_apply, represents.meta id, List.find?_append]
    by_cases same : id = media.id
    · subst same
      have absent : live.find? (·.id == media.id) = none := by
        simpa [List.find?_eq_none] using fresh
      simp [absent]
    · simp [same, beq_false_of_ne (Ne.symm same)]
  data hash := by
    simp only [storeNew, linesOf_append]
    by_cases same : media.hash = hash
    · subst same
      split_ifs <;> simp_all
    · split_ifs <;> simp [same, Ne.symm same, represents.data hash]
  backref hash := by
    simp only [storeNew, BlobMap.insert_apply, represents.backref,
      backrefLines_backrefOf (linesOf_plain represents.plain _), linesOf_append]
    by_cases same : media.hash = hash
    · subst same
      simp [backrefOf]
    · simp [same, Ne.symm same]
  nodup := by
    simpa [List.nodup_append, fresh] using represents.nodup
  plain m member := by
    rcases List.mem_append.mp member with old | new
    · exact represents.plain m old
    · exact List.mem_singleton.mp new ▸ mediaPlain

theorem Media.Plain.sanitize {media : Media} (plain : media.Plain) :
    media.meta.sanitize.hash = media.hash ∧ media.meta.sanitize.id = media.id := by
  constructor <;> apply toValidUTF8_of_valid <;> apply validUTF8_of_ascii <;> intro b member
  · exact (crockfordLowercase_plain b (plain.2 b member)).1
  · exact (crockfordLowercase_plain b (plain.1 b member)).1

theorem find?_live {live : List Media} {media : Media} (nodup : (live.map Media.id).Nodup)
    (member : media ∈ live) : live.find? (·.id == media.id) = some media := by
  obtain ⟨found, hit⟩ : ∃ found, live.find? (·.id == media.id) = some found :=
    Option.isSome_iff_exists.mp (List.find?_isSome.mpr ⟨media, member, by simp⟩)
  have same : found.id = media.id := by simpa using List.find?_some hit
  rw [hit, List.inj_on_of_nodup_map nodup (List.mem_of_find?_eq_some hit) member same]

theorem find?_filter_other {live : List Media} {id other : BlobID} (differ : other ≠ id) :
    (live.filter (·.id != id)).find? (·.id == other) = live.find? (·.id == other) := by
  induction live with
  | nil => rfl
  | cons m live ih =>
    by_cases hit : m.id = other
    · simp [List.filter_cons, hit, differ]
    · by_cases kept : m.id = id <;>
        simp [List.filter_cons, List.find?_cons, hit, kept, ih, beq_false_of_ne (Ne.symm differ)]

theorem Represents.meta_of_mem {live : List Media} {repos : Repos} {media : Media}
    (represents : Represents live repos) (member : media ∈ live) :
    repos.meta media.id = some media.meta.toJson := by
  simp [represents.meta, find?_live represents.nodup member]

theorem mem_linesOf {live : List Media} {hash id : Bytes} :
    id ∈ linesOf live hash ↔ ∃ media ∈ live, media.hash = hash ∧ media.id = id := by
  simp [linesOf, and_assoc]

theorem linesOf_ne_nil {live : List Media} {media : Media} (member : media ∈ live) :
    linesOf live media.hash ≠ [] :=
  List.ne_nil_of_mem (mem_linesOf.mpr ⟨media, member, rfl, rfl⟩)

theorem id_not_mem_linesOf {live : List Media} {media : Media} (nodup : (live.map Media.id).Nodup)
    (member : media ∈ live) {hash : Bytes} (differ : media.hash ≠ hash) :
    media.id ∉ linesOf live hash := by
  simp only [linesOf, List.mem_map, List.mem_filter, beq_iff_eq, not_exists, not_and]
  intro other ⟨other_live, other_hash⟩ same
  exact differ (List.inj_on_of_nodup_map nodup other_live member same ▸ other_hash)

/-- The backreference list of the media's hash once `pruneMedia` has taken its id out. -/
def pruneRest (live : List Media) (media : Media) : List BlobID :=
  (linesOf live media.hash).filter (· != media.id)

/-- The repositories after the owner's delete of `media`: what `pruneMedia` and the delete of
the metadata leave. -/
def deleteLive (live : List Media) (media : Media) (repos : Repos) : Repos :=
  { repos with
    data := if pruneRest live media = [] then repos.data.erase media.hash else repos.data
    backref := fun hash =>
      if hash = media.hash then backrefOf (pruneRest live media) else repos.backref hash
    meta := repos.meta.erase media.id }

section Calls

variable {live : List Media} {repos : Repos}

theorem Represents.backrefLines_eq (represents : Represents live repos) (hash : Bytes) :
    backrefLines (repos.backref hash) = linesOf live hash := by
  rw [represents.backref, backrefLines_backrefOf (linesOf_plain represents.plain hash)]

theorem Represents.exec_store (represents : Represents live repos) (cfg : MediaConfig)
    (media : Media) (unique : ∀ m ∈ live, m.id = media.id → m.hash = media.hash) :
    (store cfg media).exec repos =
      if media.size > cfg.maxSize then (.error .mediaTooLarge, repos)
      else if media.id ∈ live.map Media.id then (.ok (), repos)
      else (.ok (), storeNew media repos) := by
  split_ifs with large present
  · exact exec_store_tooLarge cfg media repos large
  · obtain ⟨m, member, same⟩ := List.mem_map.mp present
    refine exec_store_present cfg media repos large (same ▸ represents.meta_of_mem member) ?_
    rw [represents.data, ← unique m member same]
    exact linesOf_ne_nil member
  · exact exec_store_new cfg media repos large
      (by simpa [represents.meta, List.find?_eq_none] using present)

theorem Represents.linesOf_delete (represents : Represents live repos) {media : Media}
    (member : media ∈ live) (hash : Bytes) :
    linesOf (live.filter (·.id != media.id)) hash =
      if hash = media.hash then pruneRest live media else linesOf live hash := by
  rw [linesOf_filter]
  split_ifs with same
  · rw [same]
    rfl
  · exact List.filter_eq_self.mpr fun id kept => by
      simpa using fun (listed : id = media.id) => id_not_mem_linesOf represents.nodup member (Ne.symm same) (listed ▸ kept)

theorem Represents.exec_pruneMedia (represents : Represents live repos) {media : Media}
    (member : media ∈ live) :
    (pruneMedia media.meta.sanitize).exec repos =
      (.ok (pruneRest live media).isEmpty,
        { repos with
          data := if pruneRest live media = [] then repos.data.erase media.hash else repos.data
          backref := fun hash => if hash = media.hash then
              backrefOf (pruneRest live media) else repos.backref hash }) := by
  obtain ⟨sanitizedHash, sanitizedId⟩ := (represents.plain media member).sanitize
  have used := linesOf_ne_nil member
  have lines := represents.backrefLines_eq media.hash
  by_cases last : pruneRest live media = []
  · obtain ⟨data, hasData⟩ := Option.isSome_iff_exists.mp ((represents.data media.hash).mpr used)
    obtain ⟨backref, hasBackref⟩ : ∃ backref, repos.backref media.hash = some backref := by
      rw [represents.backref, backrefOf_of_ne_nil used]
      exact ⟨_, rfl⟩
    rw [exec_pruneMedia_last _ _ (by rw [sanitizedHash, sanitizedId, lines]; exact last)
      (by rw [sanitizedHash]; exact hasData) (by rw [sanitizedHash]; exact hasBackref)]
    simp only [last, sanitizedHash, List.isEmpty_nil, if_true]
    rfl
  · rw [exec_pruneMedia_kept _ _ (by rw [sanitizedHash, sanitizedId, lines]; exact last)]
    simp only [sanitizedHash, sanitizedId, lines, last, if_false, List.isEmpty_eq_false.mpr last,
      backrefOf_of_ne_nil last]
    rfl

theorem Represents.exec_delete_owner (represents : Represents live repos) {media : Media}
    (member : media ∈ live) {caller : Caller} (owner : caller = some (toValidUTF8 media.owner)) :
    (delete caller media.id).exec repos =
      (.ok ((pruneRest live media).isEmpty, media.hash), deleteLive live media repos) := by
  have found := represents.meta_of_mem member
  rw [BlobMediaService.exec_delete_owner found (newMediaMetaFromBlob_toJson _) owner
      (represents.exec_pruneMedia member) (by simp [found]),
    (represents.plain media member).sanitize.1]
  rfl

theorem Represents.delete_live (represents : Represents live repos) {media : Media}
    (member : media ∈ live) :
    Represents (live.filter (·.id != media.id)) (deleteLive live media repos) where
  meta id := by
    by_cases same : id = media.id
    · subst same
      simp only [deleteLive, BlobMap.erase_apply, if_true]
      rw [List.find?_eq_none.mpr (by simp)]
      rfl
    · simp [deleteLive, same, represents.meta, find?_filter_other same]
  data hash := by
    rw [represents.linesOf_delete member]
    by_cases same : hash = media.hash
    · subst same
      by_cases last : pruneRest live media = []
      · simp [deleteLive, last]
      · simp [deleteLive, last, (represents.data media.hash).mpr (linesOf_ne_nil member)]
    · simp only [deleteLive, same, if_false, ← represents.data]
      split_ifs <;> simp [same]
  backref hash := by
    rw [represents.linesOf_delete member]
    by_cases same : hash = media.hash <;> simp [deleteLive, same, represents.backref]
  nodup := represents.nodup.sublist ((List.filter_sublist _).map _)
  plain m kept := represents.plain m (List.mem_of_mem_filter kept)

theorem Represents.exec_delete (represents : Represents live repos) (caller : Caller)
    (mediaID : BlobID) :
    (delete caller mediaID).exec repos =
      match live.find? (·.id == mediaID) with
      | some media =>
        if caller = some (toValidUTF8 media.owner) then
          (.ok ((pruneRest live media).isEmpty, media.hash), deleteLive live media repos)
        else (.error .unauthorized, repos)
      | none => (.error .notFound, repos) := by
  cases found : live.find? (·.id == mediaID) with
  | none => exact exec_delete_absent caller (by simp [represents.meta, found])
  | some media =>
    have member := List.mem_of_find?_eq_some found
    obtain rfl : media.id = mediaID := by simpa using List.find?_some found
    dsimp only
    split_ifs with owner
    · exact represents.exec_delete_owner member owner
    · exact exec_delete_unauthorized (represents.meta_of_mem member)
        (newMediaMetaFromBlob_toJson _) owner

end Calls

/-- The live media after one call: a store of a new id that fits appends the media, and a
delete by the owner the stored metadata names removes it. -/
def indexStep (cfg : MediaConfig) (live : List Media) : MediaCall → List Media
  | .store media =>
    if media.size > cfg.maxSize ∨ media.id ∈ live.map Media.id then live else live ++ [media]
  | .fetch _ _ => live
  | .delete caller mediaID =>
    match live.find? (·.id == mediaID) with
    | some media =>
      if caller = some (toValidUTF8 media.owner) then live.filter (·.id != mediaID) else live
    | none => live

/-- The live media after the calls, in the order they were stored. -/
def indexRun (cfg : MediaConfig) (calls : List MediaCall) : List Media :=
  calls.foldl (indexStep cfg) []

/-- Media with one id have one hash: what a digest without collisions on them gives, since an
id digests the hash with the other fields. -/
def IdsDetermineHashes (media : List Media) : Prop :=
  ∀ m ∈ media, ∀ m' ∈ media, m.id = m'.id → m.hash = m'.hash

theorem represents_empty : Represents [] Repos.empty where
  meta _ := rfl
  data _ := by simp [linesOf, Repos.empty, BlobMap.empty]
  backref _ := rfl
  nodup := List.nodup_nil
  plain := nofun

section Step

variable {cfg : MediaConfig} {sha256 : Bytes → Bytes} {live : List Media} {repos : Repos}

/-- Every call keeps the repositories in step with the live media. -/
theorem Represents.step (represents : Represents live repos) (call : MediaCall)
    (stored : ∀ media ∈ storedMedia [call],
      media.Plain ∧ ∀ m ∈ live, m.id = media.id → m.hash = media.hash) :
    Represents (indexStep cfg live call) (call.exec cfg sha256 repos).2 := by
  cases call with
  | store media =>
    obtain ⟨mediaPlain, unique⟩ := stored media (List.mem_singleton_self _)
    simp only [MediaCall.exec, represents.exec_store cfg media unique, indexStep]
    by_cases large : media.size > cfg.maxSize
    · simpa [large] using represents
    by_cases present : media.id ∈ live.map Media.id
    · simpa [large, present] using represents
    · simpa [large, present] using represents.store_new mediaPlain present
  | fetch caller mediaID =>
    simpa [MediaCall.exec, indexStep, exec_fetch_repos] using represents
  | delete caller mediaID =>
    simp only [MediaCall.exec, represents.exec_delete caller mediaID, indexStep]
    cases found : live.find? (·.id == mediaID) with
    | none => exact represents
    | some media =>
      obtain rfl : media.id = mediaID := by simpa using List.find?_some found
      by_cases owner : caller = some (toValidUTF8 media.owner)
      · simpa [owner] using represents.delete_live (List.mem_of_find?_eq_some found)
      · simpa [owner] using represents

theorem indexStep_subset (call : MediaCall) :
    ∀ m ∈ indexStep cfg live call, m ∈ live ∨ m ∈ storedMedia [call] := by
  intro m member
  cases call with
  | store media =>
    simp only [indexStep] at member
    split_ifs at member
    · exact .inl member
    · simpa [storedMedia] using member
  | fetch => exact .inl member
  | delete caller mediaID =>
    simp only [indexStep] at member
    split at member
    · split_ifs at member
      · exact .inl (List.mem_of_mem_filter member)
      · exact .inl member
    · exact .inl member

theorem indexStep_append_subset (call : MediaCall) (rest : List Media) :
    ∀ m ∈ indexStep cfg live call ++ rest, m ∈ live ++ (storedMedia [call] ++ rest) := by
  intro m member
  rcases List.mem_append.mp member with member | member
  · rcases indexStep_subset call m member with old | new
    · exact List.mem_append_left _ old
    · exact List.mem_append_right _ (List.mem_append_left _ new)
  · exact List.mem_append_right _ (List.mem_append_right _ member)

theorem storedMedia_cons (call : MediaCall) (calls : List MediaCall) :
    storedMedia (call :: calls) = storedMedia [call] ++ storedMedia calls := by
  cases call <;> rfl

/-- The run lemma: from repositories in step with `live`, every sequence of calls storing plain
media without id collisions keeps them in step. -/
theorem Represents.run (represents : Represents live repos) (calls : List MediaCall)
    (plain : ∀ m ∈ storedMedia calls, m.Plain)
    (unique : IdsDetermineHashes (live ++ storedMedia calls)) :
    Represents (calls.foldl (indexStep cfg) live)
      (calls.foldl (fun repos call => (call.exec cfg sha256 repos).2) repos) := by
  induction calls generalizing live repos with
  | nil => exact represents
  | cons call calls ih =>
    rw [storedMedia_cons call calls] at plain unique
    exact ih (represents.step call fun media new => ⟨plain media (by simp [new]),
        fun m member same => unique m (by simp [member]) media (by simp [new]) same⟩)
      (fun m member => plain m (by simp [member]))
      (fun m member m' member' => unique m (indexStep_append_subset call _ m member) m'
        (indexStep_append_subset call _ m' member'))

end Step

theorem Media.Built.plain {sha256 : Bytes → Bytes} {media : Media} (built : media.Built sha256) :
    media.Plain := by
  cases built with
  | newMedia => exact ⟨encodeCrockfordB32LC_mem _, encodeCrockfordB32LC_mem _⟩
  | zero => exact ⟨nofun, nofun⟩

/-- Every run from empty repositories keeps them in step with the live media. -/
theorem represents_runCalls (cfg : MediaConfig) (sha256 : Bytes → Bytes) (calls : List MediaCall)
    (built : ∀ m ∈ storedMedia calls, m.Built sha256)
    (unique : IdsDetermineHashes (storedMedia calls)) :
    Represents (indexRun cfg calls) (runCalls cfg sha256 calls) :=
  represents_empty.run calls (fun m member => (built m member).plain) (by simpa using unique)

/-- The hash field of the metadata blob under `id`, as `NewMediaMetaFromBlob` decodes it. -/
def metaHash (repos : Repos) (id : BlobID) : Option Bytes :=
  (repos.meta id).bind fun body => (MediaMeta.ofJson body).map (·.hash)

structure BackrefIndexExact (live : List Media) (repos : Repos) : Prop where
  /-- The content of every metadata blob exists, and its backreference list names it once. -/
  metaListed : ∀ id hash, metaHash repos id = some hash →
    (repos.data hash).isSome ∧ (backrefLines (repos.backref hash)).count id = 1
  /-- Every content blob has a backreference list: the ids of the metadata blobs with its hash,
  in the order they were stored. -/
  dataListed : ∀ hash, (repos.data hash).isSome →
    (repos.backref hash).isSome ∧ backrefLines (repos.backref hash) = linesOf live hash ∧
      ∀ id ∈ backrefLines (repos.backref hash), metaHash repos id = some hash
  /-- No backreference list outlives its content. -/
  backrefHasData : ∀ hash, (repos.backref hash).isSome → (repos.data hash).isSome
  /-- A content blob exists exactly while some metadata blob names its hash. -/
  dataReferenced : ∀ hash, (repos.data hash).isSome ↔ ∃ id, metaHash repos id = some hash

section Exact

variable {live : List Media} {repos : Repos}

theorem Represents.metaHash_eq_some (represents : Represents live repos)
    {id hash : Bytes} :
    metaHash repos id = some hash ↔ id ∈ linesOf live hash := by
  rw [mem_linesOf]
  cases found : live.find? (·.id == id) with
  | none =>
    simp only [metaHash, represents.meta, found, Option.map_none', Option.none_bind, reduceCtorEq,
      false_iff]
    rintro ⟨m, member, -, rfl⟩
    simp [find?_live represents.nodup member] at found
  | some media =>
    have member := List.mem_of_find?_eq_some found
    obtain rfl : media.id = id := by simpa using List.find?_some found
    simp only [metaHash, represents.meta, found, Option.map_some', Option.some_bind,
      MediaMeta.ofJson_toJson, (represents.plain media member).sanitize.1, Option.some.injEq]
    constructor
    · rintro rfl
      exact ⟨media, member, rfl, rfl⟩
    · rintro ⟨m, other, rfl, same⟩
      rw [List.inj_on_of_nodup_map represents.nodup other member same]

theorem Represents.exact (represents : Represents live repos) :
    BackrefIndexExact live repos where
  metaListed id hash named := by
    have listed := (represents.metaHash_eq_some).mp named
    refine ⟨(represents.data hash).mpr (List.ne_nil_of_mem listed), ?_⟩
    rw [represents.backrefLines_eq]
    convert List.count_eq_one_of_mem (represents.nodup.sublist ((List.filter_sublist _).map _)) listed
  dataListed hash hasData := by
    have used := (represents.data hash).mp hasData
    refine ⟨by simp [represents.backref, backrefOf_of_ne_nil used], represents.backrefLines_eq hash,
      fun id listed => (represents.metaHash_eq_some).mpr ?_⟩
    rwa [← represents.backrefLines_eq]
  backrefHasData hash hasBackref := by
    rw [represents.data]
    rintro empty
    simp [represents.backref, empty, backrefOf] at hasBackref
  dataReferenced hash := by
    simp only [represents.data, represents.metaHash_eq_some]
    exact ⟨List.exists_mem_of_ne_nil _, fun ⟨_, listed⟩ => List.ne_nil_of_mem listed⟩

/-- A delete that succeeds removed the metadata of a live media, returns its hash, and prunes
exactly when no metadata naming that hash is left. -/
theorem Represents.delete_pruned (represents : Represents live repos)
    {caller : Caller} {mediaID : BlobID} {pruned : Bool} {hash : Bytes} {after : Repos}
    (deleted : (delete caller mediaID).exec repos = (.ok (pruned, hash), after)) :
    metaHash repos mediaID = some hash ∧ metaHash after mediaID = none ∧
      (pruned = true ↔ ∀ id, metaHash after id ≠ some hash) := by
  rw [represents.exec_delete caller mediaID] at deleted
  cases found : live.find? (·.id == mediaID) with
  | none => simp [found] at deleted
  | some media =>
    have member := List.mem_of_find?_eq_some found
    obtain rfl : media.id = mediaID := by simpa using List.find?_some found
    by_cases owner : caller = some (toValidUTF8 media.owner)
    · simp only [found, owner, if_true, Prod.mk.injEq, Except.ok.injEq] at deleted
      obtain ⟨⟨rfl, rfl⟩, rfl⟩ := deleted
      refine ⟨represents.metaHash_eq_some.mpr (mem_linesOf.mpr ⟨media, member, rfl, rfl⟩), ?_, ?_⟩
      · simp [metaHash, deleteLive]
      · simp only [ne_eq, (represents.delete_live member).metaHash_eq_some,
          represents.linesOf_delete member, if_true, List.isEmpty_iff,
          List.eq_nil_iff_forall_not_mem]
    · simp [found, owner] at deleted

end Exact

/-- From empty repositories, after any calls one at a time, the backreference index is exact,
and a delete that succeeds prunes exactly when it removed the last metadata naming the hash. -/
theorem backref_index_exact (cfg : MediaConfig) (sha256 : Bytes → Bytes) (calls : List MediaCall)
    (built : ∀ m ∈ storedMedia calls, m.Built sha256)
    (unique : IdsDetermineHashes (storedMedia calls)) :
    BackrefIndexExact (indexRun cfg calls) (runCalls cfg sha256 calls) ∧
      ∀ caller mediaID pruned hash after,
        (BlobMediaService.delete caller mediaID).exec (runCalls cfg sha256 calls) =
            (.ok (pruned, hash), after) →
          metaHash (runCalls cfg sha256 calls) mediaID = some hash ∧ metaHash after mediaID = none ∧
            (pruned = true ↔ ∀ id, metaHash after id ≠ some hash) := by
  have represents := represents_runCalls cfg sha256 calls built unique
  exact ⟨represents.exact, fun _ _ _ _ _ deleted => represents.delete_pruned deleted⟩

theorem backref_index_exact_shared_content :
    BackrefIndexExact
        (indexRun MediaConfig.default [.store (newMedia id [0x61] ⟨[], [], [], 0, [0x61], []⟩),
          .store (newMedia id [0x61] ⟨[], [], [], 0, [0x62], []⟩)])
        (runCalls MediaConfig.default id [.store (newMedia id [0x61] ⟨[], [], [], 0, [0x61], []⟩),
          .store (newMedia id [0x61] ⟨[], [], [], 0, [0x62], []⟩)]) :=
  (backref_index_exact MediaConfig.default id _
    (by simp only [storedMedia, List.mem_cons, List.mem_singleton, List.not_mem_nil, or_false]
        rintro m (rfl | rfl) <;> exact .newMedia _ _)
    (by simp only [IdsDetermineHashes, storedMedia, List.mem_cons, List.not_mem_nil, or_false]
        rintro m (rfl | rfl) m' (rfl | rfl) _ <;> rfl)).1

end Homecase
