import Homecase.Repo.Program
import Homecase.Util.Crockford

namespace Homecase

/-! # The filesystem blob repository

`FileSystemRepository` of `internal/repo/blob` keeps the blob `id` in the file
`GetFilename(id)`. `getBasename` builds its path: the id with every `/` removed, left-padded with
spaces to six runes (`fmt.Sprintf("%*s", idMinLength, ...)`), every space turned into `0`, and
put under up to three directory levels named by its first two-byte chunks. Calls are made one at
a time on a filesystem that never fails (no full disk, and no `ENAMETOOLONG` for a name over 255
bytes), a map from path to contents (`Files`), and compared with
the same calls on a map from blob id to body (`BlobCall.onMap`), which is what the `Repository`
contract promises.

Distinct ids can share a file: `1` and `000001` are both padded to `000001`
(`getBasename_pad`), and a `Fetch` of the one returns what was stored under the other
(`fetch_padded_id`).

The documentation puts a blob at `basedir/subdir/p0/p1/p2/<id>.<ext>`, with `p0,p1,p2` the first
three two-byte slices of the id padded on the left with `0` to six bytes. The code agrees for ids
of seven bytes or more without `/` or a space (`getFilename_documented`). A six-byte id gets only
two directory levels, as the prefix loop stops at `len(basename) - dirPrefixLength`, and a shorter
id is stored under its padded name (`getFilename_short_id`).

An id of at least six runes without `/` or a space is its own padded name, and its file is the id
with the extension after the last `/` of the path (`getFilename_ordinary`). So distinct such ids
have distinct files, and calls on them answer on the filesystem as on a map from id to body
(`Abstracts.blobResults`). Every content hash and media id is such an id.
-/

/-- `path/filepath.Clean` on one element of a slash-separated path, with the elements kept so
far, last first: empty and `.` elements go, `..` takes back the element before it. -/
def cleanStep (rooted : Bool) (kept : List Bytes) (elem : Bytes) : List Bytes :=
  if elem = [] ∨ elem = [0x2E] then kept
  else if elem = [0x2E, 0x2E] then
    match kept with
    | last :: earlier => if last = [0x2E, 0x2E] then elem :: kept else earlier
    | [] => if rooted then [] else [elem]
  else elem :: kept

/-- `path/filepath.Clean`: the shortest path naming the same file by lexical processing alone. -/
def filepathClean (path : Bytes) : Bytes :=
  let rooted := path.head? = some 0x2F
  let body := [0x2F].intercalate ((path.splitOn 0x2F).foldl (cleanStep rooted) []).reverse
  if rooted then 0x2F :: body else if body = [] then [0x2E] else body

/-- `path/filepath.Join`: the non-empty elements joined by `/`, then cleaned. -/
def filepathJoin (elems : List Bytes) : Bytes :=
  match elems.filter (· ≠ []) with
  | [] => []
  | nonEmpty => filepathClean ([0x2F].intercalate nonEmpty)

/-- `utf8.RuneCountInString`: the steps of the `DecodeRune` walk. -/
def runeCount (s : Bytes) : Nat := (runes s).length

/-- `fmt.Sprintf("%*s", width, s)`: `s` right-aligned in `width` runes, padded with spaces. -/
def sprintfPad (width : Nat) (s : Bytes) : Bytes := List.replicate (width - runeCount s) 0x20 ++ s

def dirPrefixLength : Nat := 2

def dirPrefixDepth : Nat := 3

def idMinLength : Nat := dirPrefixDepth * dirPrefixLength

/-- The file name of a blob before its directories: `strings.ReplaceAll` of `/` by nothing,
padding to `idMinLength`, and `strings.ReplaceAll` of ` ` by `0`. -/
def paddedName (id : BlobID) : Bytes :=
  (sprintfPad idMinLength (id.filter (· ≠ 0x2F))).map fun b => if b = 0x20 then 0x30 else b

/-- The loop `for i := 0; i < dirPrefixLength*dirPrefixDepth && i < len(basename)-dirPrefixLength;
i += dirPrefixLength`, which collects `basename[i:i+dirPrefixLength]`. -/
def dirPrefixes (basename : Bytes) : List Bytes :=
  ((List.range dirPrefixDepth).map (· * dirPrefixLength)
    |>.filter (· < basename.length - dirPrefixLength)).map fun i =>
      (basename.drop i).take dirPrefixLength

/-- `blob.FileSystemBlobRepositoryConfig` with the `subdir` and `ext` a repository was opened
with. -/
structure FileSystemRepository where
  basedir : Bytes
  subdir : Bytes
  ext : Bytes
  deriving DecidableEq, Repr

namespace FileSystemRepository

def getBasename (repo : FileSystemRepository) (id : BlobID) : Bytes :=
  filepathJoin ([repo.basedir, repo.subdir] ++ dirPrefixes (paddedName id) ++ [paddedName id])

def getFilename (repo : FileSystemRepository) (id : BlobID) : Bytes :=
  repo.getBasename id ++ [0x2E] ++ repo.ext

end FileSystemRepository

/-- The files on disk, by path. -/
abbrev Files := Bytes → Option Bytes

inductive BlobCall where
  | store (blob : Blob)
  | fetch (id : BlobID)
  | exists (id : BlobID)
  | delete (id : BlobID)

inductive BlobResult where
  | stored (result : Except ServiceError Unit)
  | fetched (result : Except ServiceError Bytes)
  | exists (found : Bool)
  | deleted (result : Except ServiceError Unit)

namespace FileSystemRepository

variable (repo : FileSystemRepository)

/-- `storeBlob`: create or truncate the file and write the body. -/
def storeBlob (files : Files) (blob : Blob) : Files :=
  fun path => if path = repo.getFilename blob.id then some blob.body else files path

/-- `fetchBlob`: read the file, not-found when there is none. -/
def fetchBlob (files : Files) (id : BlobID) : Except ServiceError Bytes :=
  match files (repo.getFilename id) with
  | some body => .ok body
  | none => .error .notFound

/-- `blobExists`: `os.Stat` of the file succeeds. -/
def blobExists (files : Files) (id : BlobID) : Bool := (files (repo.getFilename id)).isSome

/-- `deleteBlob`: `os.Remove` of the file, not-found when there is none. -/
def deleteBlob (files : Files) (id : BlobID) : Except ServiceError Unit × Files :=
  match files (repo.getFilename id) with
  | some _ => (.ok (), fun path => if path = repo.getFilename id then none else files path)
  | none => (.error .notFound, files)

end FileSystemRepository

def BlobCall.onFiles (repo : FileSystemRepository) : BlobCall → Files → BlobResult × Files
  | .store blob, files => (.stored (.ok ()), repo.storeBlob files blob)
  | .fetch id, files => (.fetched (repo.fetchBlob files id), files)
  | .exists id, files => (.exists (repo.blobExists files id), files)
  | .delete id, files =>
    let (result, after) := repo.deleteBlob files id
    (.deleted result, after)

/-- The same call on a map from blob id to body, as the `Repository` contract describes it:
`Store` overwrites, `Fetch` returns the last body stored under exactly that id, `Exists` is
membership, and `Fetch` and `Delete` of an absent id fail with not-found. -/
def BlobCall.onMap : BlobCall → BlobMap → BlobResult × BlobMap
  | .store blob, blobs => (.stored (.ok ()), blobs.insert blob.id blob.body)
  | .fetch id, blobs =>
    (.fetched (match blobs id with | some body => .ok body | none => .error .notFound), blobs)
  | .exists id, blobs => (.exists (blobs id).isSome, blobs)
  | .delete id, blobs =>
    match blobs id with
    | some _ => (.deleted (.ok ()), blobs.erase id)
    | none => (.deleted (.error .notFound), blobs)

def blobResults {σ : Type} (step : BlobCall → σ → BlobResult × σ) :
    List BlobCall → σ → List BlobResult
  | [], _ => []
  | call :: calls, state => (step call state).1 :: blobResults step calls (step call state).2

theorem runeCount_of_ascii {s : Bytes} (low : ∀ b ∈ s, b.val < 0x80) : runeCount s = s.length := by
  simp [runeCount, runes_of_ascii low]

theorem runesFuel_length_le (fuel : Nat) (s : Bytes) : (runesFuel fuel s).length ≤ fuel := by
  induction fuel generalizing s with
  | zero => simp [runesFuel]
  | succ fuel ih =>
    cases s with
    | nil => simp [runesFuel]
    | cons b rest =>
      simp only [runesFuel]
      split
      · exact Nat.succ_le_succ (ih _)
      · split <;> exact Nat.succ_le_succ (ih _)

theorem runeCount_le_length (s : Bytes) : runeCount s ≤ s.length := runesFuel_length_le _ _

/-- An id of fewer than six runes is padded with `0`s, so it names the file of the id that
spells out the padding. -/
theorem getBasename_pad (repo : FileSystemRepository) :
    repo.getBasename [0x31] = repo.getBasename [0x30, 0x30, 0x30, 0x30, 0x30, 0x31] := by
  have one : paddedName [0x31] = [0x30, 0x30, 0x30, 0x30, 0x30, 0x31] := by
    simp [paddedName, sprintfPad, runeCount_of_ascii, idMinLength, dirPrefixDepth,
      dirPrefixLength]
  have six : paddedName [0x30, 0x30, 0x30, 0x30, 0x30, 0x31] = [0x30, 0x30, 0x30, 0x30, 0x30, 0x31] := by
    simp [paddedName, sprintfPad, runeCount_of_ascii, idMinLength, dirPrefixDepth,
      dirPrefixLength]
  simp only [FileSystemRepository.getBasename, one, six]

/-- `Store` of id `1` then `Fetch` of id `000001` on the content repository: the filesystem
returns the body stored under the other id, the map a not-found error. -/
theorem fetch_padded_id :
    (blobResults (BlobCall.onFiles ⟨ascii "var/storage/blob", ascii "data", ascii "bin"⟩)
        [.store ⟨[0x31], [0x78]⟩, .fetch [0x30, 0x30, 0x30, 0x30, 0x30, 0x31]] (fun _ => none) =
      [.stored (.ok ()), .fetched (.ok [0x78])]) ∧
    blobResults BlobCall.onMap
        [.store ⟨[0x31], [0x78]⟩, .fetch [0x30, 0x30, 0x30, 0x30, 0x30, 0x31]] BlobMap.empty =
      [.stored (.ok ()), .fetched (.error .notFound)] := by
  constructor
  · simp [blobResults, BlobCall.onFiles, FileSystemRepository.storeBlob,
      FileSystemRepository.fetchBlob, FileSystemRepository.getFilename, getBasename_pad]
  · simp [blobResults, BlobCall.onMap, BlobMap.empty]

/-- `path` names an entry strictly below the directory `dir`. -/
def insideDir (dir path : Bytes) : Bool :=
  (dir ++ [0x2F]).isPrefixOf path && dir.length + 1 < path.length

/-- The id `......` is left as it is by `NormalizeCrockfordB32LC`, and its two-character prefixes
are `..`, so `filepath.Join` climbs out of `Basedir/subdir`: the meta file and its lock file
land two levels up, beside `Basedir`. -/
theorem getFilename_escapes_subdir :
    let repo : FileSystemRepository := ⟨ascii "var/storage/blob", ascii "meta", ascii "json"⟩
    normalizeCrockfordB32LC (ascii "......") = ascii "......" ∧
    repo.getFilename (ascii "......") = ascii "var/storage/.......json" ∧
    insideDir (filepathJoin [repo.basedir, repo.subdir]) (repo.getFilename (ascii "......")) = false ∧
    insideDir (filepathJoin [repo.basedir, repo.subdir])
      (repo.getFilename (ascii "......") ++ ascii ".lock") = false := by
  decide

theorem intercalate_snoc {α : Type} [DecidableEq α] (sep x : List α) (parts : List (List α)) :
    sep.intercalate (parts ++ [x]) = (if parts = [] then [] else sep.intercalate parts ++ sep) ++ x := by
  induction parts with
  | nil => simp [List.intercalate]
  | cons a rest ih =>
    cases rest with
    | nil => simp [List.intercalate]
    | cons b rest =>
      simp only [List.cons_append, List.intercalate, List.intersperse_cons₂, List.flatten_cons,
        reduceCtorEq, if_false] at ih ⊢
      simp [ih]

theorem splitOn_append_cons {α : Type} [DecidableEq α] (sep : α) (front last : List α)
    (plain : sep ∉ last) : (front ++ sep :: last).splitOn sep = front.splitOn sep ++ [last] := by
  simp only [List.splitOn]
  induction front with
  | nil =>
    rw [List.nil_append, List.splitOnP_cons, if_pos (beq_self_eq_true sep),
      List.splitOnP_eq_single _ _ fun b member same => plain (by rwa [beq_iff_eq.mp same] at member)]
    rfl
  | cons a front ih =>
    rw [List.cons_append, List.splitOnP_cons, List.splitOnP_cons, ih]
    split_ifs
    · rfl
    · obtain ⟨first, rest, pieces⟩ := List.exists_cons_of_ne_nil (List.splitOnP_ne_nil (· == sep) front)
      rw [pieces]
      rfl

theorem cleanStep_of_long (rooted : Bool) (kept : List Bytes) {elem : Bytes} (long : 2 < elem.length) :
    cleanStep rooted kept elem = elem :: kept := by
  have ordinary : ¬ (elem = [] ∨ elem = [0x2E]) := by rintro (rfl | rfl) <;> simp at long
  have notParent : elem ≠ [0x2E, 0x2E] := by rintro rfl; simp at long
  simp only [cleanStep, if_neg ordinary, if_neg notParent]

theorem filepathClean_name {name : Bytes} (long : 2 < name.length) (plain : 0x2F ∉ name) :
    filepathClean name = name := by
  have single : name.splitOn 0x2F = [name] :=
    List.splitOnP_eq_single _ _ fun b member same => plain (by rwa [beq_iff_eq.mp same] at member)
  have unrooted : name.head? ≠ some 0x2F := fun first => plain (List.mem_of_mem_head? first)
  have nonempty : name ≠ [] := by rintro rfl; simp at long
  simp [filepathClean, single, cleanStep_of_long _ _ long, List.intercalate, unrooted, nonempty]

/-- Cleaning keeps a last element longer than `..`, so text added after it stays at the end. -/
theorem filepathClean_append_last (front : Bytes) {last : Bytes} (suffix : Bytes) (long : 2 < last.length)
    (plain : 0x2F ∉ last ++ suffix) :
    filepathClean (front ++ 0x2F :: (last ++ suffix)) = filepathClean (front ++ 0x2F :: last) ++ suffix := by
  have plainLast : 0x2F ∉ last := fun member => plain (List.mem_append_left _ member)
  have long' : 2 < (last ++ suffix).length := by rw [List.length_append]; omega
  have rooted : (front ++ 0x2F :: (last ++ suffix)).head? = (front ++ 0x2F :: last).head? := by
    cases front <;> rfl
  have nonempty : last ≠ [] := by rintro rfl; simp at long
  unfold filepathClean
  rw [rooted, splitOn_append_cons _ _ _ plain, splitOn_append_cons _ _ _ plainLast]
  simp only [List.foldl_append, List.foldl_cons, List.foldl_nil, cleanStep_of_long _ _ long,
    cleanStep_of_long _ _ long', List.reverse_cons, intercalate_snoc]
  split_ifs <;> simp_all

theorem filepathJoin_of_filter_ne_nil {elems : List Bytes} (kept : elems.filter (· ≠ []) ≠ []) :
    filepathJoin elems = filepathClean ([0x2F].intercalate (elems.filter (· ≠ []))) := by
  unfold filepathJoin
  split
  · contradiction
  · rfl

theorem filepathJoin_append_last (elems : List Bytes) (last suffix : Bytes) (long : 2 < last.length)
    (plain : 0x2F ∉ last ++ suffix) :
    filepathJoin (elems ++ [last ++ suffix]) = filepathJoin (elems ++ [last]) ++ suffix := by
  have nonempty : last ≠ [] := by rintro rfl; simp at long
  have long' : 2 < (last ++ suffix).length := by rw [List.length_append]; omega
  have nonempty' : last ++ suffix ≠ [] := by simp [nonempty]
  rw [filepathJoin_of_filter_ne_nil (by simp [List.filter_append, nonempty']),
    filepathJoin_of_filter_ne_nil (by simp [List.filter_append, nonempty])]
  simp only [List.filter_append, List.filter_singleton, ne_eq, nonempty, nonempty', not_false_eq_true,
    decide_True, cond_true, intercalate_snoc]
  split_ifs
  · rw [List.nil_append, List.nil_append, filepathClean_name long' plain,
      filepathClean_name long fun member => plain (List.mem_append_left _ member)]
  · rw [List.append_assoc, List.append_assoc, List.singleton_append, List.singleton_append]
    exact filepathClean_append_last _ _ long plain

theorem paddedName_of_plain {id : BlobID} (runes : idMinLength ≤ runeCount id) (noSlash : 0x2F ∉ id)
    (noSpace : 0x20 ∉ id) : paddedName id = id := by
  have kept : id.filter (· ≠ 0x2F) = id :=
    List.filter_eq_self.mpr fun b member => by simpa using ne_of_mem_of_not_mem member noSlash
  rw [paddedName, kept, sprintfPad, Nat.sub_eq_zero_of_le runes, List.replicate_zero, List.nil_append]
  exact (List.map_congr_left fun b member => if_neg (ne_of_mem_of_not_mem member noSpace)).trans
    (List.map_id _)

theorem dirPrefixes_of_long {name : Bytes} (long : idMinLength < name.length) :
    dirPrefixes name = [name.take 2, (name.drop 2).take 2, (name.drop 4).take 2] := by
  have last : 4 < name.length - 2 := by
    simp only [idMinLength, dirPrefixDepth, dirPrefixLength] at long
    omega
  simp [dirPrefixes, dirPrefixDepth, dirPrefixLength, List.range_succ, List.filter_cons, last,
    show 2 < name.length - 2 by omega, show 0 < name.length - 2 by omega]

namespace FileSystemRepository

/-- The file of a blob by the documented layout, `basedir/subdir/p0/p1/p2/<id>.<ext>`. -/
def documentedFilename (repo : FileSystemRepository) (id : BlobID) : Bytes :=
  let padded := List.replicate (6 - id.length) 0x30 ++ id
  filepathJoin [repo.basedir, repo.subdir, padded.take 2, (padded.drop 2).take 2,
    (padded.drop 4).take 2, id ++ [0x2E] ++ repo.ext]

/-- An id of more than six bytes and at least six runes, without `/` or a space, is stored where
the documented layout puts it, under an extension without `/`. -/
theorem getFilename_documented (repo : FileSystemRepository) {id : BlobID} (long : 6 < id.length)
    (runes : 6 ≤ runeCount id) (noSlash : 0x2F ∉ id) (noSpace : 0x20 ∉ id)
    (extPlain : 0x2F ∉ repo.ext) : repo.getFilename id = repo.documentedFilename id := by
  have padded : List.replicate (6 - id.length) 0x30 ++ id = id := by
    rw [Nat.sub_eq_zero_of_le long.le, List.replicate_zero, List.nil_append]
  have plain : 0x2F ∉ id ++ ([0x2E] ++ repo.ext) := by simp [noSlash, extPlain]
  have joined := filepathJoin_append_last [repo.basedir, repo.subdir, id.take 2, (id.drop 2).take 2,
    (id.drop 4).take 2] id ([0x2E] ++ repo.ext) (by omega) plain
  simp only [getFilename, getBasename, documentedFilename, padded,
    paddedName_of_plain runes noSlash noSpace, dirPrefixes_of_long long]
  simpa using joined.symm

example : (⟨ascii "b", ascii "data", ascii "bin"⟩ : FileSystemRepository).getFilename (ascii "abcdefg") =
    (⟨ascii "b", ascii "data", ascii "bin"⟩ : FileSystemRepository).documentedFilename (ascii "abcdefg") :=
  getFilename_documented _ (by decide) (by decide) (by decide) (by decide) (by decide)

/-- The six-byte id `abcdef` and the id `1` on the content repository: the code puts the first
under two directory levels, the second under its padded name. -/
theorem getFilename_short_id :
    let repo : FileSystemRepository := ⟨ascii "var/storage/blob", ascii "data", ascii "bin"⟩
    repo.getFilename (ascii "abcdef") = ascii "var/storage/blob/data/ab/cd/abcdef.bin" ∧
    repo.documentedFilename (ascii "abcdef") = ascii "var/storage/blob/data/ab/cd/ef/abcdef.bin" ∧
    repo.getFilename (ascii "1") = ascii "var/storage/blob/data/00/00/000001.bin" ∧
    repo.documentedFilename (ascii "1") = ascii "var/storage/blob/data/00/00/01/1.bin" :=
  ⟨rfl, rfl, rfl, rfl⟩

end FileSystemRepository

theorem name_eq_of_append_eq {dir dir' name name' : Bytes}
    (sep : dir = [] ∨ dir.getLast? = some 0x2F) (sep' : dir' = [] ∨ dir'.getLast? = some 0x2F)
    (plain : 0x2F ∉ name) (plain' : 0x2F ∉ name') (same : dir ++ name = dir' ++ name') : name = name' := by
  have last : ∀ {d n : Bytes}, (d = [] ∨ d.getLast? = some 0x2F) → 0x2F ∉ n →
      (d ++ n).reverse.takeWhile (· ≠ 0x2F) = n.reverse := by
    intro d n sep plain
    rw [List.reverse_append, List.takeWhile_append_of_pos fun a member => by
      simpa using ne_of_mem_of_not_mem (List.mem_reverse.mp member) plain]
    rcases sep with rfl | ending
    · simp
    · obtain ⟨t, reversed⟩ : ∃ t, d.reverse = 0x2F :: t := by
        rw [← List.head?_reverse] at ending
        exact ⟨d.reverse.tail, (List.eq_cons_of_mem_head? ending)⟩
      simp [reversed]
  have := (last sep plain).symm.trans (same ▸ last sep' plain')
  exact List.reverse_inj.mp this

theorem sep_intercalate (kept : List Bytes) :
    let dir : Bytes := if kept = [] then [] else [0x2F].intercalate kept ++ [0x2F]
    dir = [] ∨ dir.getLast? = some 0x2F := by
  split_ifs
  · exact .inl rfl
  · exact .inr (by simp)

theorem filepathClean_name_last (front : Bytes) {name : Bytes} (long : 2 < name.length)
    (plain : 0x2F ∉ name) :
    ∃ dir, filepathClean (front ++ 0x2F :: name) = dir ++ name ∧ (dir = [] ∨ dir.getLast? = some 0x2F) := by
  have nonempty : name ≠ [] := by rintro rfl; simp at long
  unfold filepathClean
  rw [splitOn_append_cons _ _ _ plain]
  simp only [List.foldl_append, List.foldl_cons, List.foldl_nil, cleanStep_of_long _ _ long,
    List.reverse_cons, intercalate_snoc]
  generalize (List.foldl _ [] (front.splitOn 0x2F)).reverse = kept
  have sep := sep_intercalate kept
  generalize (if kept = [] then [] else [0x2F].intercalate kept ++ [0x2F]) = dir at sep ⊢
  split_ifs with rooted empty
  · refine ⟨0x2F :: dir, rfl, .inr ?_⟩
    rcases sep with rfl | ending
    · rfl
    · rw [List.getLast?_cons, ending]; rfl
  · exact absurd (List.append_eq_nil.mp empty).2 nonempty
  · exact ⟨dir, rfl, sep⟩

theorem filepathJoin_append_name (elems : List Bytes) {name : Bytes} (long : 2 < name.length)
    (plain : 0x2F ∉ name) :
    ∃ dir, filepathJoin (elems ++ [name]) = dir ++ name ∧ (dir = [] ∨ dir.getLast? = some 0x2F) := by
  have nonempty : name ≠ [] := by rintro rfl; simp at long
  rw [filepathJoin_of_filter_ne_nil (by simp [List.filter_append, nonempty])]
  simp only [List.filter_append, List.filter_singleton, ne_eq, nonempty, not_false_eq_true,
    decide_True, cond_true, intercalate_snoc]
  split_ifs
  · exact ⟨[], by rw [List.nil_append, filepathClean_name long plain], .inl rfl⟩
  · rw [List.append_assoc, List.singleton_append]
    exact filepathClean_name_last _ long plain

/-- An id the filesystem keeps apart from every other: at least six runes, so that it is its own
padded name, and neither `/` nor a space, which `getBasename` removes or rewrites. -/
def OrdinaryBlobID (id : BlobID) : Prop := idMinLength ≤ runeCount id ∧ 0x2F ∉ id ∧ 0x20 ∉ id

instance : DecidablePred OrdinaryBlobID := fun id =>
  inferInstanceAs (Decidable (idMinLength ≤ runeCount id ∧ 0x2F ∉ id ∧ 0x20 ∉ id))

namespace FileSystemRepository

/-- The file of an ordinary id is the id with the extension, under a directory. -/
theorem getFilename_ordinary (repo : FileSystemRepository) {id : BlobID} (ordinary : OrdinaryBlobID id) :
    ∃ dir, repo.getFilename id = dir ++ (id ++ [0x2E] ++ repo.ext) ∧
      (dir = [] ∨ dir.getLast? = some 0x2F) := by
  obtain ⟨runes, noSlash, noSpace⟩ := ordinary
  have long : 2 < id.length := by
    have := runeCount_le_length id
    simp only [idMinLength, dirPrefixDepth, dirPrefixLength] at runes
    omega
  obtain ⟨dir, joined, sep⟩ := filepathJoin_append_name ([repo.basedir, repo.subdir] ++ dirPrefixes id)
    long noSlash
  refine ⟨dir, ?_, sep⟩
  rw [getFilename, getBasename, paddedName_of_plain runes noSlash noSpace, joined]
  simp only [List.append_assoc]

theorem getFilename_injective (repo : FileSystemRepository) (extPlain : 0x2F ∉ repo.ext)
    {id id' : BlobID} (ordinary : OrdinaryBlobID id) (ordinary' : OrdinaryBlobID id')
    (same : repo.getFilename id = repo.getFilename id') : id = id' := by
  obtain ⟨dir, file, sep⟩ := repo.getFilename_ordinary ordinary
  obtain ⟨dir', file', sep'⟩ := repo.getFilename_ordinary ordinary'
  have plain : ∀ {i}, OrdinaryBlobID i → 0x2F ∉ i ++ [0x2E] ++ repo.ext := fun o => by
    simp [o.2.1, extPlain]
  have named := name_eq_of_append_eq sep sep' (plain ordinary) (plain ordinary')
    (file.symm.trans (same.trans file'))
  simpa using named

/-- The files hold, at the file of each ordinary id, what the map holds under that id. -/
def Abstracts (repo : FileSystemRepository) (files : Files) (blobs : BlobMap) : Prop :=
  ∀ id, OrdinaryBlobID id → files (repo.getFilename id) = blobs id

end FileSystemRepository

def BlobCall.id : BlobCall → BlobID
  | .store blob => blob.id
  | .fetch id | .exists id | .delete id => id

namespace FileSystemRepository

variable {repo : FileSystemRepository} {files : Files} {blobs : BlobMap}

/-- A call on an ordinary id answers on the files as on the map, and keeps them in step. -/
theorem Abstracts.step (abstracts : repo.Abstracts files blobs) (extPlain : 0x2F ∉ repo.ext)
    {call : BlobCall} (ordinary : OrdinaryBlobID call.id) :
    (call.onFiles repo files).1 = (call.onMap blobs).1 ∧
      repo.Abstracts (call.onFiles repo files).2 (call.onMap blobs).2 := by
  have same : ∀ {other}, OrdinaryBlobID other →
      (repo.getFilename other = repo.getFilename call.id ↔ other = call.id) := fun o =>
    ⟨repo.getFilename_injective extPlain o ordinary, congrArg _⟩
  cases call with
  | store blob =>
    refine ⟨rfl, fun other o => ?_⟩
    simp only [BlobCall.onFiles, BlobCall.onMap, storeBlob, BlobMap.insert_apply]
    exact if_congr (same o) rfl (abstracts other o)
  | fetch id =>
    refine ⟨?_, abstracts⟩
    simp only [BlobCall.onFiles, BlobCall.onMap, fetchBlob, abstracts id ordinary]
  | «exists» id =>
    refine ⟨?_, abstracts⟩
    simp only [BlobCall.onFiles, BlobCall.onMap, blobExists, abstracts id ordinary]
  | delete id =>
    simp only [BlobCall.onFiles, BlobCall.onMap, deleteBlob, abstracts id ordinary]
    cases blobs id with
    | none => exact ⟨rfl, abstracts⟩
    | some body =>
      refine ⟨rfl, fun other o => ?_⟩
      exact if_congr (same o) rfl (abstracts other o)

theorem Abstracts.blobResults (abstracts : repo.Abstracts files blobs) (extPlain : 0x2F ∉ repo.ext)
    {calls : List BlobCall} (ordinary : ∀ call ∈ calls, OrdinaryBlobID call.id) :
    Homecase.blobResults (BlobCall.onFiles repo) calls files = Homecase.blobResults BlobCall.onMap calls blobs := by
  induction calls generalizing files blobs with
  | nil => rfl
  | cons call calls ih =>
    obtain ⟨answer, next⟩ := abstracts.step extPlain (ordinary call (List.mem_cons_self _ _))
    simp only [Homecase.blobResults, answer,
      ih next fun call member => ordinary call (List.mem_cons_of_mem _ member)]

end FileSystemRepository

theorem crockfordLowercase_ordinary : ∀ b ∈ crockfordLowercase, b.val < 0x80 ∧ b ≠ 0x2F ∧ b ≠ 0x20 := by
  have checked : crockfordLowercase.all (fun b => b.val < 0x80 && b != 0x2F && b != 0x20) = true := rfl
  simpa [Bool.and_assoc] using List.all_eq_true.mp checked

/-- The encoding of four bytes or more is an ordinary id: every content hash and media id is. -/
theorem ordinary_encodeCrockfordB32LC {input : Bytes} (long : 4 ≤ input.length) :
    OrdinaryBlobID (encodeCrockfordB32LC input) := by
  have letters := fun b member => crockfordLowercase_ordinary b (encodeCrockfordB32LC_mem input b member)
  have length : 6 ≤ (encodeCrockfordB32LC input).length := by
    rw [encodeCrockfordB32LC_eq_reference, crockfordReference, List.length_map, fiveBitGroups_length,
      List.length_append, List.length_replicate, byteStringBits_length]
    omega
  refine ⟨?_, fun member => (letters _ member).2.1 rfl, fun member => (letters _ member).2.2 rfl⟩
  rw [runeCount_of_ascii fun b member => (letters b member).1]
  exact length

/-- Under an extension without `/`, every run of `Store`, `Fetch`, `Exists` and `Delete` calls on
ordinary ids from an empty filesystem that never fails (no full disk, and no `ENAMETOOLONG` for a
name over 255 bytes) answers as the blob map does, and the encoding of a digest of four bytes or
more, such as every content hash and media id, is an ordinary id. -/
theorem filesystem_refines_blob_map (repo : FileSystemRepository) (extPlain : 0x2F ∉ repo.ext) :
    (∀ calls : List BlobCall, (∀ call ∈ calls, OrdinaryBlobID call.id) →
      blobResults (BlobCall.onFiles repo) calls (fun _ => none) =
        blobResults BlobCall.onMap calls BlobMap.empty) ∧
    ∀ input : Bytes, 4 ≤ input.length → OrdinaryBlobID (encodeCrockfordB32LC input) :=
  ⟨fun _ ordinary => FileSystemRepository.Abstracts.blobResults (fun _ _ => rfl) extPlain ordinary,
    fun _ => ordinary_encodeCrockfordB32LC⟩

theorem filesystem_refines_blob_map_store_delete :
    let repo : FileSystemRepository := ⟨ascii "var/storage/blob", ascii "data", ascii "bin"⟩
    let calls : List BlobCall := [.store ⟨ascii "abcdefg", [0x78]⟩, .delete (ascii "abcdefg"),
      .fetch (ascii "abcdefg")]
    0x2F ∉ repo.ext ∧ (∀ call ∈ calls, OrdinaryBlobID call.id) ∧
      blobResults (BlobCall.onFiles repo) calls (fun _ => none) =
        blobResults BlobCall.onMap calls BlobMap.empty :=
  ⟨by decide, by decide, (filesystem_refines_blob_map _ (by decide)).1 _ (by decide)⟩

end Homecase
