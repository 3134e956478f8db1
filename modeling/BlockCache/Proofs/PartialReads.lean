import BlockCache.Proofs.FileTable

/-!
# Blocks from partial reads

A read of a file may be interrupted, or give any part of the bytes that are wanted, as long
as it gives one where the file has one; and every read may give another number of them. A
table of files makes such reads one behind the other, until it has a whole block or the file
has ended. However the bytes are split between the reads, and wherever these are
interrupted, the block is the same.
-/

namespace BlockCache
namespace FileSystem

variable {φ η : Type} [FileSystem φ η]

def positionLimit : Nat := 9223372036854775808

theorem positionLimit_lt : positionLimit < UInt64.size := by
  decide

/--
The file under `handle` has these bytes. Now and later, a read that is not interrupted gives
some bytes at the position of one of them, one at least, and no more than are wanted and
than there are. At or past the end it gives none.
-/
def Delivers (fs : φ) (handle : η) (bytes : Bytes) : Prop :=
  forall later, Later fs later -> forall (position : UInt64) (wanted : Nat),
    position.toNat < positionLimit -> 0 < wanted ->
      (readAt later handle position wanted).1 = .error (.os .interrupted) ∨
        exists n,
          (readAt later handle position wanted).1 = .ok ((bytes.drop position.toNat).take n) ∧
            (position.toNat < bytes.length ->
              1 <= n ∧ n <= min wanted (bytes.length - position.toNat))

/--
Reads one behind the other, with the pieces they give: each is made for what is still
wanted, at the position behind the last piece. One that is interrupted gives no piece. They
end when nothing is wanted any more or when a read gives nothing.
-/
inductive Transfer (handle : η) : φ -> UInt64 -> Nat -> List Bytes -> φ -> Prop where
  | full {fs : φ} {position : UInt64} : Transfer handle fs position 0 [] fs
  | ended {fs fs' : φ} {position : UInt64} {wanted : Nat} :
      0 < wanted -> readAt fs handle position wanted = (.ok [], fs') ->
      Transfer handle fs position wanted [] fs'
  | interrupted {fs fs' fs'' : φ} {position : UInt64} {wanted : Nat} {pieces : List Bytes} :
      0 < wanted -> readAt fs handle position wanted = (.error (.os .interrupted), fs') ->
      Transfer handle fs' position wanted pieces fs'' ->
      Transfer handle fs position wanted pieces fs''
  | piece {fs fs' fs'' : φ} {position next : UInt64} {wanted : Nat} {got : Bytes}
      {pieces : List Bytes} :
      got ≠ [] -> got.length <= wanted -> readAt fs handle position wanted = (.ok got, fs') ->
      next.toNat = position.toNat + got.length ->
      Transfer handle fs' next (wanted - got.length) pieces fs'' ->
      Transfer handle fs position wanted (got :: pieces) fs''

variable {fs fs' : φ} {handle : η} {bytes : Bytes} {position : UInt64} {wanted : Nat}
  {pieces : List Bytes}

theorem Delivers.later (h : Delivers fs handle bytes) (hlater : Later fs fs') :
    Delivers fs' handle bytes :=
  fun later hnext => h later (hlater.trans hnext)

theorem Transfer.length_pieces_le (h : Transfer handle fs position wanted pieces fs') :
    pieces.length <= pieces.flatten.length := by
  induction h with
  | full => exact Nat.le_refl _
  | ended => exact Nat.le_refl _
  | interrupted _ _ _ ih => exact ih
  | piece hne _ _ _ _ ih =>
      have hpos := List.length_pos_iff.mpr hne
      rw [List.length_cons, List.flatten_cons, List.length_append]
      omega

theorem Transfer.readFull_eq (h : Transfer handle fs position wanted pieces fs') :
    readFull fs handle position wanted = (.ok pieces.flatten, fs') := by
  induction h with
  | full => exact readFull_zero _ _ _
  | ended hwanted hread =>
      exact readFull_of_end (Nat.ne_of_gt hwanted) (retryAt_of_ok hread) List.take_nil
  | interrupted hwanted hread _ ih =>
      exact (readFull_of_interrupted (Nat.ne_of_gt hwanted) hread).trans ih
  | piece hne hle hread hnext _ ih =>
      rename_i fs fs' fs'' position next wanted got pieces _
      have hwanted : wanted ≠ 0 := by
        have hpos := List.length_pos_iff.mpr hne
        omega
      have htake : got.take wanted = got := List.take_of_length_le hle
      have hposition : Word.addCapped position (UInt64.ofNat got.length) = next := by
        have hlt : next.toNat < UInt64.size := next.toNat_lt
        have hword : (UInt64.ofNat got.length).toNat = got.length :=
          UInt64.toNat_ofNat_of_lt' (by omega)
        rw [<- UInt64.toNat_inj, Word.toNat_addCapped, hword, hnext]
        omega
      have hgot : got.take wanted ≠ [] := htake.symm ▸ hne
      rw [readFull_of_some hwanted (retryAt_of_ok hread) hgot, htake, hposition, ih]
      rfl

theorem Delivers.readAt_cases (h : Delivers fs handle bytes)
    (hposition : position.toNat < positionLimit) (hwanted : 0 < wanted) :
    (exists fs', readAt fs handle position wanted = (.error (.os .interrupted), fs')) ∨
      (bytes.length <= position.toNat ∧
        exists fs', readAt fs handle position wanted = (.ok [], fs')) ∨
      exists got fs', readAt fs handle position wanted = (.ok got, fs') ∧ got ≠ [] ∧
        got.length <= wanted ∧ got <+: bytes.drop position.toNat := by
  rcases hcall : readAt fs handle position wanted with ⟨answer, fs'⟩
  rcases h fs .refl position wanted hposition hwanted with hanswer | ⟨n, hanswer, hportion⟩
  · rw [hcall] at hanswer
    cases hanswer
    exact .inl ⟨fs', rfl⟩
  · rw [hcall] at hanswer
    cases hanswer
    by_cases hinside : position.toNat < bytes.length
    · rcases hportion hinside with ⟨hpos, hle⟩
      have hlength : ((bytes.drop position.toNat).take n).length = n := by
        rw [List.length_take, List.length_drop]
        omega
      refine .inr (.inr ⟨_, fs', rfl, ?_, ?_, List.take_prefix _ _⟩)
      · rw [<- List.length_pos_iff, hlength]
        exact hpos
      · rw [hlength]
        exact Nat.le_trans hle (Nat.min_le_left _ _)
    · have hend := Nat.le_of_not_lt hinside
      rw [List.drop_eq_nil_of_le hend, List.take_nil]
      exact .inr (.inl ⟨hend, fs', rfl⟩)

/-- However a file is delivered, a transfer comes to its end with the bytes of the file. -/
theorem Delivers.exists_transfer (h : Delivers fs handle bytes)
    (hlength : bytes.length < positionLimit) (hposition : position.toNat < positionLimit)
    (wanted : Nat) :
    exists pieces fs', Transfer handle fs position wanted pieces fs' ∧
      pieces.flatten = (bytes.drop position.toNat).take wanted := by
  -- A read that gives something leaves less to be wanted, an interrupted one fewer to come.
  induction wanted using Nat.strongRecOn generalizing fs position with
  | ind wanted ih =>
      induction hcount : interruptions fs using Nat.strongRecOn generalizing fs with
      | ind count again =>
          rcases Nat.eq_zero_or_pos wanted with rfl | hwanted
          · exact ⟨[], fs, .full, List.take_zero.symm⟩
          · rcases h.readAt_cases hposition hwanted with
              ⟨fs', hread⟩ | ⟨hend, fs', hread⟩ | ⟨got, fs', hread, hne, hle, hfront⟩
            · rcases again _ (hcount ▸ interruptions_lt hread) (h.later (later_of_readAt hread)) rfl
                with ⟨pieces, fs'', hrest, hflat⟩
              exact ⟨pieces, fs'', .interrupted hwanted hread hrest, hflat⟩
            · refine ⟨[], fs', .ended hwanted hread, ?_⟩
              rw [List.drop_eq_nil_of_le hend, List.take_nil]
              rfl
            · have hpos := List.length_pos_iff.mpr hne
              have hinside := hfront.length_le
              rw [List.length_drop] at hinside
              have hbelow : position.toNat + got.length < positionLimit := by
                omega
              have hnext : (UInt64.ofNat (position.toNat + got.length)).toNat =
                  position.toNat + got.length :=
                UInt64.toNat_ofNat_of_lt' (Nat.lt_trans hbelow positionLimit_lt)
              rcases ih (wanted - got.length) (by omega) (h.later (later_of_readAt hread))
                (hnext.symm ▸ hbelow) with ⟨pieces, fs'', hrest, hflat⟩
              refine ⟨got :: pieces, fs'', .piece hne hle hread hnext hrest, ?_⟩
              rw [List.flatten_cons, hflat, hnext, <- List.drop_drop,
                append_take_drop_eq hfront hle]

end FileSystem

theorem extract_block (bytes : Bytes) (k size : Nat) :
    bytes.extract (k * size) (min ((k + 1) * size) bytes.length) =
      (bytes.drop (k * size)).take size := by
  rw [List.extract_eq_take_drop, List.take_eq_take_iff, List.length_drop, Nat.succ_mul]
  omega

namespace FileTable

open FileSystem (positionLimit)

variable {φ η : Type} [FileSystem φ η] {table : FileTable φ η} {fd : FileDescriptor} {handle : η}
  {bytes : Bytes} {index : BlockIndex} {blockSize : UInt32}

theorem fetch_of_transfer {offset : ByteOffset} {pieces : List Bytes} {fs : φ}
    (hopen : table.files[fd]? = some handle)
    (hoffset : index.byteOffset? blockSize = some offset)
    (h : FileSystem.Transfer handle table.fs offset.number blockSize.toNat pieces fs) :
    BlockSource.fetch table fd index blockSize =
      ⟨.ok pieces.flatten, [.fetched fd index pieces.flatten.length], { table with fs := fs }⟩ := by
  show fetch table fd index blockSize = _
  simp only [fetch, hopen, hoffset, h.readFull_eq]

/--
Whatever the reads of an open file give at a time, and however often they are interrupted, a
fetch comes to an end, after at most as many reads that give something as the block has
bytes. It answers the bytes of the file from the start of the block to its end or the end of
the file, and nothing for a block that starts at or past the end.
-/
theorem fetch_reassembles (index : BlockIndex) (blockSize : UInt32)
    (hopen : table.files[fd]? = some handle)
    (hdelivers : FileSystem.Delivers table.fs handle bytes)
    (hlength : bytes.length < positionLimit)
    (hstart : index.number.toNat * blockSize.toNat < positionLimit) :
    exists (offset : UInt64) (pieces : List Bytes) (fs : φ),
      offset.toNat = index.number.toNat * blockSize.toNat ∧
        FileSystem.Transfer handle table.fs offset blockSize.toNat pieces fs ∧
        pieces.length <= pieces.flatten.length ∧
        pieces.flatten = bytes.extract (index.number.toNat * blockSize.toNat)
          (min ((index.number.toNat + 1) * blockSize.toNat) bytes.length) ∧
        (bytes.length <= index.number.toNat * blockSize.toNat -> pieces.flatten = []) ∧
        BlockSource.fetch table fd index blockSize =
          ⟨.ok pieces.flatten, [.fetched fd index pieces.flatten.length],
            { table with fs := fs }⟩ := by
  have hnumber : (UInt64.ofNat (index.number.toNat * blockSize.toNat)).toNat =
      index.number.toNat * blockSize.toNat :=
    UInt64.toNat_ofNat_of_lt' (Nat.lt_trans hstart FileSystem.positionLimit_lt)
  rcases hdelivers.exists_transfer hlength (hnumber.symm ▸ hstart) blockSize.toNat with
    ⟨pieces, fs, htransfer, hflat⟩
  rw [hnumber] at hflat
  refine ⟨_, pieces, fs, hnumber, htransfer, htransfer.length_pieces_le, ?_, ?_, ?_⟩
  · rw [extract_block, hflat]
  · intro hend
    rw [hflat, List.drop_eq_nil_of_le hend, List.take_nil]
  · have hoffset : index.byteOffset? blockSize =
        some ⟨UInt64.ofNat (index.number.toNat * blockSize.toNat)⟩ :=
      BlockIndex.byteOffset?_eq_some_iff.mpr hnumber.symm
    exact fetch_of_transfer hopen hoffset htransfer

end FileTable

/-- One file that is read in portions of the given sizes, and then byte by byte; 0 interrupts. -/
structure Portions where
  bytes : Bytes
  sizes : List Nat

namespace Portions

instance : FileSystem Portions Unit where
  openPath fs _ := (.ok (), fs)
  readAt fs _ position wanted :=
    match fs.sizes with
    | 0 :: sizes => (.error (.os .interrupted), ⟨fs.bytes, sizes⟩)
    | size :: sizes =>
        (.ok ((fs.bytes.drop position.toNat).take (min wanted size)), ⟨fs.bytes, sizes⟩)
    | [] => (.ok ((fs.bytes.drop position.toNat).take (min wanted 1)), fs)
  interruptions fs := fs.sizes.length
  interruptions_lt {fs later handle position wanted} hread := by
    rcases fs with ⟨bytes, _ | ⟨_ | size, sizes⟩⟩ <;> cases hread
    exact Nat.lt_succ_self _

theorem bytes_of_later {fs later : Portions} (h : FileSystem.Later fs later) :
    later.bytes = fs.bytes := by
  induction h with
  | refl => rfl
  | opened path _ ih => exact ih
  | read handle position wanted _ ih =>
      rw [<- ih]
      simp only [FileSystem.readAt]
      split <;> rfl

theorem delivers (fs : Portions) : FileSystem.Delivers fs () fs.bytes := by
  intro later hlater position wanted _ hwanted
  rw [<- bytes_of_later hlater]
  have hportion : forall n, 1 <= n -> exists m,
      (later.bytes.drop position.toNat).take (min wanted n) =
        (later.bytes.drop position.toNat).take m ∧ (position.toNat < later.bytes.length ->
          1 <= m ∧ m <= min wanted (later.bytes.length - position.toNat)) := by
    intro n hn
    refine ⟨min (min wanted n) (later.bytes.length - position.toNat), ?_, ?_⟩
    · rw [<- List.length_drop, <- List.take_eq_take_min]
    · intro hinside
      omega
  rcases later with ⟨bytes, _ | ⟨_ | size, sizes⟩⟩
  · rcases hportion 1 (Nat.le_refl 1) with ⟨m, hsame, hbounds⟩
    exact .inr ⟨m, congrArg Except.ok hsame, hbounds⟩
  · exact .inl rfl
  · rcases hportion (size + 1) (Nat.le_add_left 1 size) with ⟨m, hsame, hbounds⟩
    exact .inr ⟨m, congrArg Except.ok hsame, hbounds⟩

def sevenBytes : FileTable Portions Unit :=
  { fs := ⟨[1, 2, 3, 4, 5, 6, 7], [0, 2]⟩
    next := ⟨1⟩
    files := (∅ : Std.TreeMap FileDescriptor Unit).insert ⟨0⟩ () }

end Portions

theorem FileTable.fetch_reassembles_portions :
    Portions.sevenBytes.files[FileDescriptor.mk 0]? = some () ∧
      FileSystem.Delivers Portions.sevenBytes.fs () [1, 2, 3, 4, 5, 6, 7] ∧
      exists (offset : UInt64) (pieces : List Bytes) (fs : Portions),
        offset.toNat = 3 ∧ FileSystem.Transfer () Portions.sevenBytes.fs offset 3 pieces fs ∧
          pieces.flatten = [4, 5, 6] ∧
          (BlockSource.fetch Portions.sevenBytes ⟨0⟩ ⟨1⟩ 3).answer = .ok [4, 5, 6] := by
  have hopen : Portions.sevenBytes.files[FileDescriptor.mk 0]? = some () :=
    Std.TreeMap.getElem?_insert_self
  have hdelivers := Portions.delivers Portions.sevenBytes.fs
  refine ⟨hopen, hdelivers, ?_⟩
  rcases FileTable.fetch_reassembles ⟨1⟩ 3 hopen hdelivers (by decide) (by decide) with
    ⟨offset, pieces, fs, hoffset, htransfer, -, hflat, -, hfetch⟩
  have hblock : pieces.flatten = [4, 5, 6] := hflat.trans (by decide)
  refine ⟨offset, pieces, fs, hoffset, htransfer, hblock, ?_⟩
  rw [hfetch, hblock]

end BlockCache
