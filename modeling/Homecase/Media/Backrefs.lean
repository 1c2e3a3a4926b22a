import Homecase.Media.Sections

namespace Homecase

/-! # The backreference codec

`storeBackrefs` writes a list of ids as `bytes.Join(ids, "\n")`, and `fetchBackrefs` reads a
list back with `bytes.Split` on `"\n"`. The two undo each other on nonempty lists of ids without
a newline (`storeBackrefs_fetchBackrefs`). They do not on the empty list, which is written as the
empty file and read back as one empty id, or on an id that holds a newline.

Every list the service writes is of the first kind (`RepoOp.BackrefWrite`). A piece that
`bytes.Split` cuts holds no separator. `addBackrefs` appends the new id, which `NewMedia` writes
in the Crockford alphabet, and `pruneMedia` writes only a list it has found nonempty.
-/

open BlobMediaService ServiceM

theorem not_mem_of_mem_splitOn {α : Type} [DecidableEq α] (x : α) (xs : List α) :
    ∀ piece ∈ xs.splitOn x, x ∉ piece := by
  induction xs with
  | nil => simp
  | cons a xs ih =>
    simp only [List.splitOn] at ih ⊢
    obtain ⟨first, rest, pieces⟩ := List.exists_cons_of_ne_nil (List.splitOnP_ne_nil (· == x) xs)
    rw [pieces] at ih
    rw [List.splitOnP_cons, pieces]
    split_ifs with separator
    · rintro piece (_ | ⟨_, member⟩)
      · exact List.not_mem_nil x
      · exact ih piece member
    · rintro piece (_ | ⟨_, member⟩)
      · refine List.not_mem_cons_of_ne_of_not_mem (fun same => separator ?_) (ih first (List.mem_cons_self _ _))
        simp [same]
      · exact ih piece (List.mem_cons_of_mem _ member)

/-- A call that stores to the backreference repository writes the lines of a nonempty list of
ids without a newline. -/
def RepoOp.BackrefWrite : RepoOp → Prop
  | .store repo blob => repo = .backref →
    ∃ ids : List BlobID, ids ≠ [] ∧ (∀ id ∈ ids, (0x0A : Byte) ∉ id) ∧ blob.body = backrefBody ids
  | _ => True

namespace BlobMediaService

/-- Storing a nonempty list of ids without a newline and fetching it gives the list back. -/
theorem storeBackrefs_fetchBackrefs (hash : BlobID) {ids : List BlobID} (nonempty : ids ≠ [])
    (plain : ∀ id ∈ ids, (0x0A : Byte) ∉ id) (repos : Repos) :
    (storeBackrefs hash ids >>= fun _ => fetchBackrefs hash).exec repos =
      (.ok ids, repos.set .backref (repos.backref.insert hash (backrefBody ids))) := by
  simp [exec_bind, storeBackrefs, exec_fetchBackrefs, backrefLines, backrefBody, Repos.get, Repos.set,
    List.splitOn_intercalate _ _ plain nonempty]

example : (storeBackrefs [0x63] [] >>= fun _ => fetchBackrefs [0x63]).exec Repos.empty =
    (.ok [[]], Repos.empty.set .backref (Repos.empty.backref.insert [0x63] [])) := rfl

theorem fetchBackrefs_run (hash : BlobID) :
    (fetchBackrefs hash).run = .call (.exists .backref hash) fun (found : Bool) =>
      bif found then .call (.fetch .backref hash) fun (fetched : Except ServiceError Bytes) =>
        .pure (fetched.map (·.splitOn 0x0A))
      else .pure (.ok []) := by
  show Prog.call _ _ = _
  congr 1
  funext found
  cases found with
  | false => rfl
  | true =>
    show Prog.call _ _ = _
    congr 1
    funext fetched
    cases fetched <;> rfl

theorem fetchBackrefs_bind_calls {β : Type} {ok : RepoOp → Prop} {hash : BlobID}
    {k : List BlobID → ServiceM β} (backrefExists : ok (.exists .backref hash))
    (backrefFetch : ok (.fetch .backref hash))
    (rest : ∀ ids, (∀ id ∈ ids, (0x0A : Byte) ∉ id) → (k ids).run.Calls ok) :
    (fetchBackrefs hash >>= k).run.Calls ok := by
  rw [ExceptT.run_bind, fetchBackrefs_run]
  refine ⟨backrefExists, fun found => ?_⟩
  cases found
  · exact rest [] nofun
  · refine ⟨backrefFetch, fun fetched => ?_⟩
    cases fetched
    · trivial
    · exact rest _ (not_mem_of_mem_splitOn _ _)

/-- `addBackrefs` writes the list it read with the new id after it. -/
theorem addBackrefs_writes {dataID metaID : BlobID} (plain : (0x0A : Byte) ∉ metaID) :
    (addBackrefs dataID metaID).run.Calls RepoOp.BackrefWrite :=
  fetchBackrefs_bind_calls trivial trivial fun ids free => calls_repoStore fun _ =>
    ⟨ids ++ [metaID], by simp, fun id member => (List.mem_append.mp member).elim (free id)
      fun last => List.mem_singleton.mp last ▸ plain, rfl⟩

/-- `pruneMedia` writes the list it read without the media's id, and only when that is not
empty. -/
theorem pruneMedia_writes (meta : MediaMeta) : (pruneMedia meta).run.Calls RepoOp.BackrefWrite :=
  fetchBackrefs_bind_calls trivial trivial fun ids free => by
    dsimp only
    split
    · exact calls_bind (calls_repoDelete trivial) fun _ => calls_bind (calls_repoDelete trivial) fun _ =>
        calls_pure _
    · rename_i kept
      exact calls_bind (calls_pure _) fun _ => calls_bind (calls_repoStore fun _ =>
        ⟨_, by simpa using kept, fun id member => free id (List.mem_of_mem_filter member), rfl⟩) fun _ =>
          calls_pure _

/-- A `Store` of a media a caller can build writes only such lists: its id is in the Crockford
alphabet. -/
theorem store_writes (cfg : MediaConfig) {sha256 : Bytes → Bytes} {media : Media}
    (built : media.Built sha256) : (store cfg media).run.Calls RepoOp.BackrefWrite := by
  have plain : (0x0A : Byte) ∉ media.id := fun member =>
    (crockfordLowercase_plain _ (built.plain.1 _ member)).2 rfl
  exact store_calls cfg media trivial trivial trivial trivial
    (storeSection_calls media trivial nofun trivial nofun (addBackrefs_writes plain))

end BlobMediaService

/-- Fetching after storing a nonempty list of ids without a newline gives the list back, on any
repositories. Every list that `addBackrefs` writes for an id without a newline, and every list
that `pruneMedia` writes, is such a list, whatever the repositories answer, and every `Store` of a
media a caller can build passes `addBackrefs` such an id. -/
theorem backref_lists_round_trip (sha256 : Bytes → Bytes) :
    (∀ (hash : BlobID) (ids : List BlobID), ids ≠ [] → (∀ id ∈ ids, (0x0A : Byte) ∉ id) →
      ∀ repos : Repos, (storeBackrefs hash ids >>= fun _ => fetchBackrefs hash).exec repos =
        (.ok ids, repos.set .backref (repos.backref.insert hash (backrefBody ids)))) ∧
    (∀ dataID metaID : BlobID, (0x0A : Byte) ∉ metaID →
      (addBackrefs dataID metaID).run.Calls RepoOp.BackrefWrite) ∧
    (∀ meta : MediaMeta, (pruneMedia meta).run.Calls RepoOp.BackrefWrite) ∧
    (∀ (cfg : MediaConfig) (media : Media), media.Built sha256 →
      (store cfg media).run.Calls RepoOp.BackrefWrite) :=
  ⟨fun hash _ nonempty plain => storeBackrefs_fetchBackrefs hash nonempty plain,
    fun _ _ => addBackrefs_writes, pruneMedia_writes, fun cfg _ => store_writes cfg⟩

theorem backref_lists_round_trip_two_ids :
    (storeBackrefs [0x63, 0x34] [[0x61], [0x62]] >>= fun _ => fetchBackrefs [0x63, 0x34]).exec Repos.empty =
        (.ok [[0x61], [0x62]], Repos.empty.set .backref
          (Repos.empty.backref.insert [0x63, 0x34] (backrefBody [[0x61], [0x62]]))) ∧
      (addBackrefs [0x63, 0x34] [0x62]).run.Calls RepoOp.BackrefWrite ∧
      (store .default (newMedia id [0x61] ⟨[], [], [], 0, [0x61], []⟩)).run.Calls RepoOp.BackrefWrite :=
  ⟨(backref_lists_round_trip id).1 _ _ (by simp) (by decide) _, (backref_lists_round_trip id).2.1 _ _ (by decide),
    (backref_lists_round_trip id).2.2.2 _ _ (.newMedia _ _)⟩

end Homecase
