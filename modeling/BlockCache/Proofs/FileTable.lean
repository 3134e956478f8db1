import BlockCache.Proofs.Cache.Transparency
import BlockCache.Source.FileTable

/-!
# Files behind a file table

A file system is honest if a read of a regular file gives bytes that the file has at the
position, and none only where the file has ended. It may fail or be interrupted, it may give
fewer bytes than are wanted, and it may change with every call, as long as files keep their
contents. A handle that is not of a regular file cannot be read.

In front of an honest file system a table answers whole blocks of the open files. A
descriptor that is not open has no blocks.
-/

namespace BlockCache

structure RegularFile where
  bytes : Bytes
  length_lt : bytes.length < UInt64.size

theorem append_take_drop_eq {α : Type} {xs ys : List α} (h : xs <+: ys) {n : Nat}
    (hn : xs.length <= n) : xs ++ (ys.drop xs.length).take (n - xs.length) = ys.take n := by
  rcases h with ⟨rest, rfl⟩
  rw [List.drop_left, List.take_append, List.take_of_length_le hn]

namespace FileSystem

variable {φ η : Type} [FileSystem φ η]

/-- What a file system becomes by calls. -/
inductive Later (fs : φ) : φ -> Prop where
  | refl : Later fs fs
  | opened {later : φ} (path : String) :
      Later fs later -> Later fs (FileSystem.openPath later path).2
  | read {later : φ} (handle : η) (position : UInt64) (wanted : Nat) :
      Later fs later -> Later fs (readAt later handle position wanted).2

theorem Later.trans {fs fs₁ fs₂ : φ} (h : Later fs fs₁) (h' : Later fs₁ fs₂) : Later fs fs₂ := by
  induction h' with
  | refl => exact h
  | opened path _ ih => exact ih.opened path
  | read handle position wanted _ ih => exact ih.read handle position wanted

def Honest (contents : η -> Option RegularFile) (fs : φ) : Prop :=
  forall later, Later fs later ->
    forall (handle : η) (position : UInt64) (wanted : Nat) (bytes : Bytes), 0 < wanted ->
      (readAt later handle position wanted).1 = .ok bytes ->
        exists file, contents handle = some file ∧ bytes <+: file.bytes.drop position.toNat ∧
          (bytes = [] -> file.bytes.length <= position.toNat)

variable {contents : η -> Option RegularFile} {fs fs' : φ} {handle : η} {position : UInt64}
  {wanted : Nat}

theorem Honest.later (h : Honest contents fs) (hlater : Later fs fs') : Honest contents fs' :=
  fun later hnext => h later (hlater.trans hnext)

theorem retryAt_of_interrupted
    (hread : readAt fs handle position wanted = (.error (.os .interrupted), fs')) :
    retryAt fs handle position wanted = retryAt fs' handle position wanted := by
  rw [retryAt, hread]
  exact if_pos rfl

theorem retryAt_of_error {cause : IoCause} (hcause : cause ≠ .os .interrupted)
    (hread : readAt fs handle position wanted = (.error cause, fs')) :
    retryAt fs handle position wanted = (.error cause, fs') := by
  rw [retryAt, hread]
  exact if_neg hcause

theorem retryAt_of_ok {bytes : Bytes}
    (hread : readAt fs handle position wanted = (.ok bytes, fs')) :
    retryAt fs handle position wanted = (.ok bytes, fs') := by
  rw [retryAt, hread]

theorem later_of_readAt {answer : Except IoCause Bytes}
    (hread : readAt fs handle position wanted = (answer, fs')) : Later fs fs' := by
  have hlater := (Later.refl : Later fs fs).read handle position wanted
  rw [hread] at hlater
  exact hlater

/-- A call that is made again and again has the answer of the last time. -/
theorem exists_last_call (fs : φ) (handle : η) (position : UInt64) (wanted : Nat) :
    exists last, Later fs last ∧
      readAt last handle position wanted = retryAt fs handle position wanted := by
  induction fs using @retryAt.induct φ η _ handle position wanted with
  | case1 fs fs' hread ih =>
      rcases ih with ⟨last, hlast, hsame⟩
      rw [retryAt_of_interrupted hread]
      exact ⟨last, (later_of_readAt hread).trans hlast, hsame⟩
  | case2 fs cause fs' hread hcause =>
      exact ⟨fs, .refl, hread.trans (retryAt_of_error hcause hread).symm⟩
  | case3 fs bytes fs' hread =>
      exact ⟨fs, .refl, hread.trans (retryAt_of_ok hread).symm⟩

theorem later_of_retryAt {answer : Except IoCause Bytes}
    (hread : retryAt fs handle position wanted = (answer, fs')) : Later fs fs' := by
  rcases exists_last_call fs handle position wanted with ⟨last, hlast, hsame⟩
  exact hlast.trans (later_of_readAt (hsame.trans hread))

theorem readFull_zero (fs : φ) (handle : η) (position : UInt64) :
    readFull fs handle position 0 = (.ok [], fs) := by
  rw [readFull, if_pos rfl]

theorem readFull_of_interrupted (hwanted : wanted ≠ 0)
    (hread : readAt fs handle position wanted = (.error (.os .interrupted), fs')) :
    readFull fs handle position wanted = readFull fs' handle position wanted := by
  rw [readFull, readFull, if_neg hwanted, if_neg hwanted, retryAt_of_interrupted hread]

theorem readFull_of_error {cause : IoCause} (hwanted : wanted ≠ 0)
    (hread : retryAt fs handle position wanted = (.error cause, fs')) :
    readFull fs handle position wanted = (.error cause, fs') := by
  rw [readFull, if_neg hwanted, hread]

theorem readFull_of_end {bytes : Bytes} (hwanted : wanted ≠ 0)
    (hread : retryAt fs handle position wanted = (.ok bytes, fs')) (hgot : bytes.take wanted = []) :
    readFull fs handle position wanted = (.ok [], fs') := by
  rw [readFull, if_neg hwanted, hread]
  exact if_pos hgot

theorem readFull_of_some {bytes : Bytes} (hwanted : wanted ≠ 0)
    (hread : retryAt fs handle position wanted = (.ok bytes, fs')) (hgot : bytes.take wanted ≠ []) :
    readFull fs handle position wanted =
      ((readFull fs' handle
          (Word.addCapped position (UInt64.ofNat (bytes.take wanted).length))
          (wanted - (bytes.take wanted).length)).1.map (bytes.take wanted ++ ·),
        (readFull fs' handle
          (Word.addCapped position (UInt64.ofNat (bytes.take wanted).length))
          (wanted - (bytes.take wanted).length)).2) := by
  rw [readFull, if_neg hwanted, hread]
  exact if_neg hgot

theorem later_readFull (fs : φ) (handle : η) (position : UInt64) (wanted : Nat) :
    Later fs (readFull fs handle position wanted).2 := by
  induction fs, position, wanted using @readFull.induct φ η _ handle with
  | case1 fs position =>
      rw [readFull_zero]
      exact .refl
  | case2 fs position wanted hwanted cause fs' hread =>
      rw [readFull_of_error hwanted hread]
      exact later_of_retryAt hread
  | case3 fs position wanted hwanted bytes fs' hread got hgot =>
      rw [readFull_of_end hwanted hread hgot]
      exact later_of_retryAt hread
  | case4 fs position wanted hwanted bytes fs' hread got hgot next more fs'' hmore ih =>
      rw [readFull_of_some hwanted hread hgot]
      exact (later_of_retryAt hread).trans ih

theorem toNat_addCapped_length {file : RegularFile} {got : Bytes}
    (hgot : got <+: file.bytes.drop position.toNat) (hne : got ≠ []) :
    (Word.addCapped position (UInt64.ofNat got.length)).toNat = position.toNat + got.length := by
  have hle := hgot.length_le
  have hpos := List.length_pos_iff.mpr hne
  have hlt := file.length_lt
  rw [List.length_drop] at hle
  have hword : (UInt64.ofNat got.length).toNat = got.length :=
    UInt64.toNat_ofNat_of_lt' (by omega)
  rw [Word.toNat_addCapped, hword]
  omega

/-- What is read until the end is what the file has. -/
theorem readFull_eq {data : Bytes} (h : Honest contents fs) (hwanted : 0 < wanted)
    (hread : (readFull fs handle position wanted).1 = .ok data) :
    exists file, contents handle = some file ∧
      data = (file.bytes.drop position.toNat).take wanted := by
  induction wanted using Nat.strongRecOn generalizing fs position data with
  | ind wanted ih =>
      have hne : wanted ≠ 0 := Nat.ne_of_gt hwanted
      rcases hcall : retryAt fs handle position wanted with ⟨answer, fs'⟩
      rcases exists_last_call fs handle position wanted with ⟨last, hlast, hanswer⟩
      rw [hcall] at hanswer
      cases answer with
      | error cause =>
          rw [readFull_of_error hne hcall] at hread
          cases hread
      | ok bytes =>
          rcases h last hlast handle position wanted bytes hwanted (by rw [hanswer]) with
            ⟨file, hfile, hbytes, hend⟩
          refine ⟨file, hfile, ?_⟩
          by_cases hgot : bytes.take wanted = []
          · have hnil : bytes = [] := (List.take_eq_nil_iff.mp hgot).resolve_left hne
            rw [readFull_of_end hne hcall hgot] at hread
            cases hread
            rw [List.drop_eq_nil_of_le (hend hnil), List.take_nil]
          · have htaken := List.take_prefix wanted bytes
            have hfront := htaken.trans hbytes
            have hpos : 0 < (bytes.take wanted).length := List.length_pos_iff.mpr hgot
            rw [readFull_of_some hne hcall hgot] at hread
            rcases exists_of_map_eq_ok hread with ⟨rest, hrest, rfl⟩
            have hmore : rest = (file.bytes.drop (position.toNat + (bytes.take wanted).length)).take
                (wanted - (bytes.take wanted).length) := by
              rcases Nat.eq_zero_or_pos (wanted - (bytes.take wanted).length) with hzero | hleft
              · rw [hzero, readFull_zero] at hrest
                cases hrest
                rw [hzero, List.take_zero]
              · rcases ih _ (Nat.sub_lt hwanted hpos) (h.later (later_of_retryAt hcall)) hleft hrest
                  with ⟨same, hsame, hdata⟩
                rw [hfile] at hsame
                cases hsame
                rw [hdata, toNat_addCapped_length hfront hgot]
            rw [hmore, <- List.drop_drop]
            exact append_take_drop_eq hfront (List.length_take_le _ _)

end FileSystem

namespace FileTable

variable {φ η : Type} [FileSystem φ η] {table : FileTable φ η} {fd : FileDescriptor}
  {index : BlockIndex} {blockSize : UInt32}

theorem fetch_of_unknown (h : table.files[fd]? = none) (index : BlockIndex) (blockSize : UInt32) :
    BlockSource.fetch table fd index blockSize = ⟨.error (.badDescriptor fd), [], table⟩ := by
  show fetch table fd index blockSize = _
  rw [fetch, h]

theorem fetch_kept (table : FileTable φ η) (fd : FileDescriptor) (index : BlockIndex)
    (blockSize : UInt32) :
    (BlockSource.fetch table fd index blockSize).source.files = table.files ∧
      (BlockSource.fetch table fd index blockSize).source.next = table.next ∧
      FileSystem.Later table.fs (BlockSource.fetch table fd index blockSize).source.fs := by
  show (fetch table fd index blockSize).source.files = table.files ∧
    (fetch table fd index blockSize).source.next = table.next ∧
    FileSystem.Later table.fs (fetch table fd index blockSize).source.fs
  unfold fetch
  cases table.files[fd]? with
  | none => exact ⟨rfl, rfl, .refl⟩
  | some handle =>
      cases index.byteOffset? blockSize with
      | none => exact ⟨rfl, rfl, .refl⟩
      | some offset =>
          have hlater := FileSystem.later_readFull table.fs handle offset.number blockSize.toNat
          dsimp only
          cases (FileSystem.readFull table.fs handle offset.number blockSize.toNat).1 with
          | error cause => exact ⟨rfl, rfl, hlater⟩
          | ok bytes => exact ⟨rfl, rfl, hlater⟩

theorem fetch_eq {contents : η -> Option RegularFile} {data : Bytes}
    (h : FileSystem.Honest contents table.fs) (hsize : 0 < blockSize.toNat)
    (hfetch : (BlockSource.fetch table fd index blockSize).answer = .ok data) :
    exists handle file, table.files[fd]? = some handle ∧ contents handle = some file ∧
      data = blockBytes file.bytes blockSize.toNat index.number.toNat := by
  change (fetch table fd index blockSize).answer = .ok data at hfetch
  unfold fetch at hfetch
  cases hhandle : table.files[fd]? with
  | none =>
      rw [hhandle] at hfetch
      cases hfetch
  | some handle =>
      simp only [hhandle] at hfetch
      cases hoffset : index.byteOffset? blockSize with
      | none =>
          simp only [hoffset] at hfetch
          cases hfetch
      | some offset =>
          simp only [hoffset] at hfetch
          cases hread : (FileSystem.readFull table.fs handle offset.number blockSize.toNat).1 with
          | error cause =>
              simp only [hread] at hfetch
              cases hfetch
          | ok bytes =>
              simp only [hread] at hfetch
              cases hfetch
              rcases FileSystem.readFull_eq h hsize hread with ⟨file, hfile, hbytes⟩
              refine ⟨handle, file, rfl, hfile, ?_⟩
              rw [hbytes, blockBytes, BlockIndex.byteOffset?_eq_some_iff.mp hoffset]

theorem later_kept {later : FileTable φ η} (h : Later blockSize table later) :
    later.files = table.files ∧ later.next = table.next ∧
      FileSystem.Later table.fs later.fs := by
  induction h with
  | refl => exact ⟨rfl, rfl, .refl⟩
  | fetched key _ ih =>
      rename_i later _
      rcases ih with ⟨hfiles, hnext, hlater⟩
      rcases fetch_kept later key.fd key.index blockSize with ⟨hfiles', hnext', hlater'⟩
      exact ⟨hfiles'.trans hfiles, hnext'.trans hnext, hlater.trans hlater'⟩

/-- A table is faithful to all files that are open. -/
theorem faithful {contents : η -> Option RegularFile} {files : FileDescriptor -> Bytes}
    (h : FileSystem.Honest contents table.fs) (hsize : 0 < blockSize.toNat)
    (hfiles : forall fd handle file, table.files[fd]? = some handle ->
      contents handle = some file -> files fd = file.bytes) :
    Faithful files blockSize table := by
  intro later hlater key data hfetch
  rcases later_kept hlater with ⟨hsame, -, hcalls⟩
  rcases fetch_eq (h.later hcalls) hsize hfetch with ⟨handle, file, hhandle, hfile, hdata⟩
  rw [hsame] at hhandle
  rw [hdata, hfiles key.fd handle file hhandle hfile]

end FileTable
end BlockCache
