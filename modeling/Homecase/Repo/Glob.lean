import Homecase.Repo.FileSystem

namespace Homecase

/-! # Deleting blobs by pattern

`FileSystemRepository.DeleteAll(id, pattern)` is `deleteBlobPattern`: `getFilenames` joins the
basename of `id`, the pattern and the extension into one `filepath.Match` pattern, walks the
directory of the basename, and collects every file whose path matches; then each collected file
is removed. The pattern is built from the basename as it is, so the characters `*`, `?`, `[` and
`\` of `Basedir` act as pattern syntax.

`filepath.Match` is transliterated from the Go library for a Unix separator: `scanChunk` splits the
pattern at stars, `matchChunk` matches one chunk and keeps checking the chunk's syntax after a
mismatch, and `getEsc` reads one character of a class, failing with `ErrBadPattern`.
-/

/-- `filepath.ErrBadPattern`. -/
inductive MatchError where
  | badPattern
  deriving DecidableEq, Repr

namespace Glob

/-- The length of the chunk `scanChunk` cuts: up to a `*` outside a class, a `\` taking the byte
after it along. -/
def chunkLength : Bytes → Bool → Nat
  | [], _ => 0
  | 0x5C :: _ :: rest, inrange => chunkLength rest inrange + 2
  | [0x5C], _ => 1
  | 0x5B :: rest, _ => chunkLength rest true + 1
  | 0x5D :: rest, _ => chunkLength rest false + 1
  | 0x2A :: rest, inrange => if inrange then chunkLength rest inrange + 1 else 0
  | _ :: rest, inrange => chunkLength rest inrange + 1

/-- `scanChunk`: whether stars lead the pattern, the chunk after them, and the rest. -/
def scanChunk (pattern : Bytes) : Bool × Bytes × Bytes :=
  let stars := pattern.takeWhile (· = 0x2A)
  let pattern := pattern.dropWhile (· = 0x2A)
  let i := chunkLength pattern false
  (stars ≠ [], pattern.take i, pattern.drop i)

/-- `getEsc`: one character of a class, possibly escaped by `\`, and the class after it, which
may not end there. -/
def getEsc (chunk : Bytes) : Except MatchError (Nat × Bytes) :=
  match chunk with
  | [] => .error .badPattern
  | c :: rest =>
    if c = 0x2D ∨ c = 0x5D then .error .badPattern
    else
      let chunk := if c = 0x5C then rest else chunk
      if chunk = [] then .error .badPattern
      else if ((decodeRune chunk).1 = 0xFFFD ∧ (decodeRune chunk).2 = 1) ∨
          chunk.drop (decodeRune chunk).2 = [] then .error .badPattern
      else .ok ((decodeRune chunk).1, chunk.drop (decodeRune chunk).2)

/-- The loop over the ranges of a class up to its `]`: whether `r` lies in one of them, and the
chunk after the class. -/
def classRanges : Nat → Bytes → Nat → Nat → Bool → Except MatchError (Bool × Bytes)
  | 0, _, _, _, _ => .error .badPattern
  | fuel + 1, chunk, r, nrange, matched =>
    if chunk.head? = some 0x5D ∧ 0 < nrange then .ok (matched, chunk.tail)
    else
      match getEsc chunk with
      | .error err => .error err
      | .ok (lo, chunk) =>
        let hi := if chunk.head? = some 0x2D then getEsc chunk.tail else .ok (lo, chunk)
        match hi with
        | .error err => .error err
        | .ok (hi, chunk) => classRanges fuel chunk r (nrange + 1) (matched || (lo ≤ r && r ≤ hi))

/-- `matchChunk` for at most `fuel` pattern characters: the rest of `s` after the chunk, `none`
when the chunk does not match. Once the match has failed, the chunk is still read to its end to
check its syntax. -/
def matchChunkFuel : Nat → Bytes → Bytes → Bool → Except MatchError (Option Bytes)
  | 0, _, _, _ => .ok none
  | fuel + 1, chunk, s, failed =>
    match chunk with
    | [] => .ok (if failed then none else some s)
    | c :: rest =>
      let failed := failed || s.isEmpty
      if c = 0x5B then
        let r := if failed then 0 else (decodeRune s).1
        let s := if failed then s else s.drop (decodeRune s).2
        let (negated, rest) : Bool × Bytes :=
          match rest with
          | 0x5E :: more => (true, more)
          | _ => (false, rest)
        match classRanges rest.length rest r 0 false with
        | .error err => .error err
        | .ok (matched, rest) => matchChunkFuel fuel rest s (failed || matched == negated)
      else if c = 0x3F then
        if failed then matchChunkFuel fuel rest s true
        else matchChunkFuel fuel rest (s.drop (decodeRune s).2) (s.head? = some 0x2F)
      else
        match (if c = 0x5C then rest else chunk) with
        | [] => .error .badPattern
        | d :: rest =>
          if failed then matchChunkFuel fuel rest s true
          else matchChunkFuel fuel rest s.tail (s.head? ≠ some d)

def matchChunk (chunk s : Bytes) : Except MatchError (Option Bytes) :=
  matchChunkFuel (chunk.length + 1) chunk s false

/-- The loop of `Match` after a star: try the chunk after skipping one more byte of the name,
never a `/`. A match that leaves bytes over is skipped when the chunk is the last. -/
def starScan (chunk : Bytes) (last : Bool) : Bytes → Except MatchError (Option Bytes)
  | [] => .ok none
  | c :: rest =>
    if c = 0x2F then .ok none
    else
      match matchChunk chunk rest with
      | .error err => .error err
      | .ok (some t) => if last ∧ t ≠ [] then starScan chunk last rest else .ok (some t)
      | .ok none => starScan chunk last rest

def checkRest : Nat → Bytes → Except MatchError Bool
  | 0, _ => .ok false
  | fuel + 1, pattern =>
    if pattern = [] then .ok false
    else
      match matchChunk (scanChunk pattern).2.1 [] with
      | .error err => .error err
      | .ok _ => checkRest fuel (scanChunk pattern).2.2

/-- `filepath.Match` for at most `fuel` chunks. -/
def matchFuel : Nat → Bytes → Bytes → Except MatchError Bool
  | 0, _, _ => .ok false
  | fuel + 1, pattern, name =>
    if pattern = [] then .ok name.isEmpty
    else
      let (star, chunk, rest) := scanChunk pattern
      if star ∧ chunk = [] then .ok (!name.contains 0x2F)
      else
        let otherwise : Except MatchError Bool :=
          if star then
            match starScan chunk (rest = []) name with
            | .error err => .error err
            | .ok (some t) => matchFuel fuel rest t
            | .ok none => checkRest rest.length rest
          else checkRest rest.length rest
        match matchChunk chunk name with
        | .error err => .error err
        | .ok (some t) => if t = [] ∨ rest ≠ [] then matchFuel fuel rest t else otherwise
        | .ok none => otherwise

end Glob

/-- `filepath.Match`: each round takes at least one byte off the pattern. -/
def filepathMatch (pattern name : Bytes) : Except MatchError Bool :=
  Glob.matchFuel (pattern.length + 1) pattern name

example : filepathMatch (ascii "a*b*c*d*e*/f") (ascii "axbxcxdxexxx/f") = .ok true := rfl

example : filepathMatch (ascii "a*/b") (ascii "a/c/b") = .ok false := rfl

example : filepathMatch (ascii "ab[^e-g]") (ascii "abc") = .ok true := rfl

example : filepathMatch (ascii "[\\-x]") (ascii "-") = .ok true := rfl

example : filepathMatch (ascii "[x-]") (ascii "x") = .error .badPattern := rfl

example : filepathMatch (ascii "a[") (ascii "x") = .error .badPattern := rfl

/-- `filepath.Dir`: the path up to its last `/`, cleaned. -/
def filepathDir (path : Bytes) : Bytes := filepathClean (path.reverse.dropWhile (· ≠ 0x2F)).reverse

/-- A directory tree, as the paths of its files, in the order `filepath.Walk` visits them, with
their contents. -/
abbrev FileTree := List (Bytes × Bytes)

namespace FileSystemRepository

variable (repo : FileSystemRepository)

/-- `getFilenames`: `filepath.Walk` of the directory of the basename, collecting the files whose
path matches the pattern; the first error of `filepath.Match` ends the walk. -/
def getFilenames (tree : FileTree) (id : BlobID) (pattern : Bytes) : Except MatchError (List Bytes) :=
  let basename := repo.getBasename id
  let pattern := basename ++ pattern ++ [0x2E] ++ repo.ext
  List.foldlM
    (fun filenames (file : Bytes × Bytes) =>
      match filepathMatch pattern file.1 with
      | .error err => .error err
      | .ok true => .ok (filenames ++ [file.1])
      | .ok false => .ok filenames)
    [] (tree.filter fun file => insideDir (filepathDir basename) file.1)

/-- `deleteBlobPattern`: remove every file `getFilenames` collected. -/
def deleteBlobPattern (tree : FileTree) (id : BlobID) (pattern : Bytes) :
    Except MatchError Unit × FileTree :=
  match repo.getFilenames tree id pattern with
  | .error err => (.error err, tree)
  | .ok filenames => (.ok (), tree.filter fun file => file.1 ∉ filenames)

end FileSystemRepository

end Homecase
