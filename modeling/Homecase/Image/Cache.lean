import Homecase.Service.Concurrent
import Homecase.Image.Service
import Homecase.Repo.Glob

namespace Homecase

/-! # The cache of resized images

`Fetch` takes its cache lock on `hash_width`, shared, and only once the media service call has
released the locks under which it read the content; a pruning `Delete` takes its cache lock on
`hash`, exclusive. No lock therefore orders a `Fetch` that has read the content against a
`Delete` that prunes it, nor two `Fetch`es of one copy against each other's `Store`.

Two schedules, from an upload of a two-byte JPEG (with the identity as the digest and an image
library that leaves the pixels as they are), show what follows. In the first, a `Fetch` reads the
content, a `Delete` prunes it and removes its copies, and the `Fetch` then stores its copy: every
call succeeds, and the cache holds `hash_1` while the data repository has no `hash`. In the
second, one `Fetch` misses and has created the copy's file when another `Fetch` finds the file,
reads it while still empty and returns it.

On the filesystem, the wipe `DeleteAll(hash, "_*")` of a pruning `Delete` matches file paths
against a pattern that starts with `Basedir` unescaped (`deleteAll_basedir_pattern`).
-/

section Schedules

set_option maxRecDepth 20000

/-- A copy stored after its content was pruned. -/
theorem fetch_caches_after_prune :
    let media : Media := newMedia id [0xFF, 0xD8]
      ⟨ascii "a.jpg", [], [], 0, ascii "alice", ascii "image/jpeg"⟩
    let svc : ImageService := ⟨MediaConfig.default, ImageConfig.default,
      ⟨fun _ data => .ok data, fun _ _ pixels => pixels, fun _ pixels => .ok pixels⟩, id⟩
    ((World.start Repos.empty ([ImageCall.store media, .fetch (some (ascii "alice")) media.id 1,
        .delete (some (ascii "alice")) media.id].map fun call => (svc.call call).run)).run
      (List.replicate 16 0 ++ List.replicate 7 1 ++ List.replicate 13 2 ++
        List.replicate 5 1)).map
      (fun w => (w.tasks.all fun task => task.returned matches some (.ok _),
        (w.repos.cache (cacheID media.hash 1)).isSome, (w.repos.data media.hash).isSome)) =
      some (true, true, false) := by
  decide

/-- A `Fetch` that returns the empty file another `Fetch` has just created. -/
theorem fetch_reads_created_cache :
    let media : Media := newMedia id [0xFF, 0xD8]
      ⟨ascii "a.jpg", [], [], 0, ascii "alice", ascii "image/jpeg"⟩
    let svc : ImageService := ⟨MediaConfig.default, ImageConfig.default,
      ⟨fun _ data => .ok data, fun _ _ pixels => pixels, fun _ pixels => .ok pixels⟩, id⟩
    ((World.start Repos.empty ([ImageCall.store media, .fetch (some (ascii "alice")) media.id 1,
        .fetch (some (ascii "alice")) media.id 1].map fun call => (svc.call call).run)).run
      (List.replicate 16 0 ++ List.replicate 9 1 ++ List.replicate 10 2 ++
        List.replicate 3 1)).map
      (fun w => w.tasks.map fun task => match task.returned with
        | some (.ok (.fetched image)) => some image.data
        | _ => none) = some [none, some [0xFF, 0xD8], some []] ∧
    resizeImage svc.codec media.data media.mimeType 1 svc.cfg.interpolator = .ok [0xFF, 0xD8] :=
  ⟨by decide, rfl⟩

end Schedules

/-- `DeleteAll(H, "_*")` on the cache repository, which holds the copy `H_100` and the lock file
`H.bin.lock` that the cache lock of a pruning `Delete` creates. Under `Basedir` `srv/img` the
copy goes. Under `srv/img[1]` the class `[1]` stands for the byte `1` alone, so no path matches
and `DeleteAll` succeeds with the copy left. Under `srv/img[` every match fails with
`ErrBadPattern`, and so does `DeleteAll`. -/
theorem deleteAll_basedir_pattern :
    let hash : Bytes := encodeCrockfordB32LC (List.replicate 32 0)
    let tree (repo : FileSystemRepository) : FileTree :=
      [(repo.getFilename hash ++ ascii ".lock", []), (repo.getFilename (cacheID hash 100), [0x01])]
    let plain : FileSystemRepository := ⟨ascii "srv/img", ascii "cache", ascii "bin"⟩
    let classed : FileSystemRepository := ⟨ascii "srv/img[1]", ascii "cache", ascii "bin"⟩
    let unclosed : FileSystemRepository := ⟨ascii "srv/img[", ascii "cache", ascii "bin"⟩
    plain.deleteBlobPattern (tree plain) hash (ascii "_*") =
        (.ok (), [(plain.getFilename hash ++ ascii ".lock", [])]) ∧
      classed.deleteBlobPattern (tree classed) hash (ascii "_*") = (.ok (), tree classed) ∧
      unclosed.deleteBlobPattern (tree unclosed) hash (ascii "_*") =
        (.error .badPattern, tree unclosed) :=
  ⟨rfl, rfl, rfl⟩

end Homecase
