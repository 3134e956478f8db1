import BlockCache.Proofs.Cache.Keys
import BlockCache.Proofs.FileLog

/-!
# Sessions

A cache stands in front of a file table while files are opened and closed, and nobody tells
the cache. Blocks stay resident when their descriptor is closed. They can do no harm: a
descriptor is never given to a second file, so they have the bytes of the only file that
the descriptor ever stood for.
-/

namespace BlockCache

inductive Request where
  | openPath (path : String)
  | close (fd : FileDescriptor)
  | perform (operation : Cache.Operation)

/-- A cache in front of open files, with all that was done to the files since the start. -/
structure Session (φ η : Type) where
  cache : Cache (FileTable φ η)
  log : List (FileChange η)

def FileChange.ofAnswers {η : Type} (path : String) (answer : Except IoCause η) :
    Except Error FileDescriptor -> List (FileChange η)
  | .error _ => []
  | .ok fd =>
      match answer with
      | .error _ => []
      | .ok handle => [.opened path fd handle]

namespace Session

variable {φ η : Type} [FileSystem φ η]

def attend (session : Session φ η) : Request -> Except Corruption (Session φ η)
  | .openPath path =>
      let found := (FileSystem.openPath session.cache.source.fs path).1
      let opened := session.cache.source.openPath path
      .ok ⟨session.cache.withSource opened.2.1,
        session.log ++ FileChange.ofAnswers path found opened.1⟩
  | .close fd =>
      .ok ⟨session.cache.withSource (session.cache.source.close fd).2.1,
        session.log ++ [.closed fd]⟩
  | .perform operation => do
      let step <- session.cache.perform operation
      return ⟨step.cache, session.log⟩

def attendAll (session : Session φ η) : List Request -> Except Corruption (Session φ η)
  | [] => .ok session
  | request :: requests => do
      let next <- session.attend request
      next.attendAll requests

end Session

namespace Cache

variable {φ η : Type} [FileSystem φ η] {config : Config} {fs : φ}
  {contents : η -> Option RegularFile} {log : List (FileChange η)}
  {c : Cache (FileTable φ η)} {s s' : Contents config}

/-!
# What sessions uphold
-/

/-- The resident blocks are of files that were opened, and the table is as the log says. -/
structure Upheld (contents : η -> Option RegularFile) (fs : φ) (log : List (FileChange η))
    (c : Cache (FileTable φ η)) (s : Contents config) : Prop where
  coherent : Coherent config c s
  table : FileTable.Logged log c.source
  later : FileSystem.Later fs c.source.fs
  blocks : forall held, held ∈ s.holdings -> held.data =
    blockBytes (bytesIn contents log held.key.fd) config.blockSize.toNat
      held.key.index.number.toNat

theorem Upheld.truthful (h : Upheld contents fs log c s)
    (hhonest : FileSystem.Honest contents fs) (hsize : 0 < config.blockSize.toNat) :
    Truthful (bytesIn contents log) c s :=
  ⟨h.coherent.config_eq, h.table.faithful (hhonest.later h.later) hsize, h.blocks⟩

theorem Upheld.bytesIn_ne_nil (h : Upheld contents fs log c s) {held : CutSequence.Holding}
    (hheld : held ∈ s.holdings) : bytesIn contents log held.key.fd ≠ [] := by
  intro hnil
  apply (h.coherent.storable held hheld).1
  rw [h.blocks held hheld, hnil, blockBytes, List.drop_nil, List.take_nil]

theorem Upheld.withSource {log' : List (FileChange η)} {table : FileTable φ η}
    (h : Upheld contents fs log c s)
    (hbytes : forall fd, bytesIn contents log fd ≠ [] ->
      bytesIn contents log' fd = bytesIn contents log fd)
    (htable : FileTable.Logged log' table) (hlater : FileSystem.Later fs table.fs) :
    Upheld contents fs log' (c.withSource table) s where
  coherent := ⟨h.coherent.toAgree, h.coherent.config_eq⟩
  table := htable
  later := hlater
  blocks held hheld := by
    rw [hbytes held.key.fd (h.bytesIn_ne_nil hheld)]
    exact h.blocks held hheld

theorem Upheld.perform_completes (h : Upheld contents fs log c s) (hvalid : config.Valid)
    (hhonest : FileSystem.Honest contents fs) (operation : Operation) :
    Completes (c.perform operation) fun step =>
      exists s' : Contents config, Upheld contents fs log step.cache s' := by
  apply (Cache.perform_completes hvalid h.coherent operation).mono
  intro step hstep
  rcases hstep with ⟨s', hevolves, h'⟩
  rcases FileTable.later_kept hevolves.later.2 with ⟨hfiles, hnext, hfs⟩
  have htruthful := hevolves.truthful (h.truthful hhonest hvalid.blockSize_pos)
  exact ⟨s', h', h.table.kept hfiles hnext, h.later.trans hfs, htruthful.blocks⟩

theorem Upheld.attend_completes {session : Session φ η}
    (h : Upheld contents fs session.log session.cache s) (hvalid : config.Valid)
    (hhonest : FileSystem.Honest contents fs) (request : Request) :
    Completes (session.attend request) fun next =>
      exists s' : Contents config, Upheld contents fs next.log next.cache s' := by
  cases request with
  | openPath path =>
      have hlater := h.later.opened path
      rw [Session.attend]
      rcases session.cache.source.openPath_cases path with
        ⟨handle, next, hfound, hnext, htable⟩ | ⟨e, htable⟩
      · rw [htable, hfound]
        exact Completes.ok ⟨s, h.withSource (fun fd hbytes => bytesIn_concat hbytes _)
          (h.table.opened hnext _ path handle) hlater⟩
      · rw [htable]
        simp only [FileChange.ofAnswers, List.append_nil]
        exact Completes.ok ⟨s, h.withSource (fun _ _ => rfl) (h.table.kept rfl rfl) hlater⟩
  | close fd =>
      exact Completes.ok ⟨s, h.withSource (fun fd hbytes => bytesIn_concat hbytes _)
        (h.table.closed fd) h.later⟩
  | perform operation =>
      apply (h.perform_completes hvalid hhonest operation).bind
      intro step hstep
      exact Completes.pure hstep

theorem Upheld.attendAll_completes {session : Session φ η}
    (h : Upheld contents fs session.log session.cache s) (hvalid : config.Valid)
    (hhonest : FileSystem.Honest contents fs) (requests : List Request) :
    Completes (session.attendAll requests) fun last =>
      exists s' : Contents config, Upheld contents fs last.log last.cache s' := by
  induction requests generalizing session s with
  | nil => exact Completes.ok ⟨s, h⟩
  | cons request requests ih =>
      apply (h.attend_completes hvalid hhonest request).bind
      intro next hnext
      rcases hnext with ⟨s', h'⟩
      exact ih h'

theorem upheld_empty (hcoherent : Coherent config c .empty)
    (hsource : c.source = FileTable.empty fs) :
    Upheld contents fs [] c (.empty : Contents config) := by
  refine ⟨hcoherent, ?_, ?_, ?_⟩
  · rw [hsource]
    exact FileTable.logged_empty fs
  · rw [hsource]
    exact .refl
  · intro held hheld
    cases hheld

/-!
# Files that are served
-/

section Beginnings

variable {σ : Type} [BlockSource σ] {c : Cache σ} {fd : FileDescriptor} {buf : Bytes}
  {step : Step σ (Reading (Except Error Nat))} {n : Nat}

theorem ReadPieces.exists_accessed {pieces : List Piece}
    (hread : ReadPieces fd pieces c s buf step s') (hne : pieces ≠ [])
    (hresult : step.value.result = .ok n) :
    exists index accessed, exists (s₁ : Contents config) (found : Option Slot),
      Accessed c s ⟨fd, index⟩ accessed s₁ ∧ accessed.value = .ok found := by
  cases hread with
  | done => exact absurd rfl hne
  | failed haccessed hvalue => cases hresult
  | pastEnd haccessed hvalue => exact ⟨_, _, _, _, haccessed, hvalue⟩
  | short haccessed hvalue => exact ⟨_, _, _, _, haccessed, hvalue⟩
  | full haccessed hvalue => exact ⟨_, _, _, _, haccessed, hvalue⟩

theorem ReadDone.exists_accessed {offset : ByteOffset}
    (hread : ReadDone c s fd offset buf step s') (hne : buf ≠ [])
    (hresult : step.value.result = .ok n) :
    exists index accessed, exists (s₁ : Contents config) (found : Option Slot),
      Accessed c s ⟨fd, index⟩ accessed s₁ ∧ accessed.value = .ok found := by
  have hlt : offset.number.toNat < offset.number.toNat + buf.length :=
    Nat.lt_add_of_pos_right (List.length_pos_iff.mpr hne)
  cases hread with
  | refused hover => cases hresult
  | empty hnil => exact absurd hnil hne
  | failed htiled hpieces hfailed => exact hpieces.exists_accessed (htiled.ne_nil hlt) hresult
  | finished htiled hpieces hfinished =>
      exact hpieces.exists_accessed (htiled.ne_nil hlt) hresult

end Beginnings

theorem Upheld.exists_file_of_answer {key : BlockKey} {data : Bytes}
    (h : Upheld contents fs log c s) (hhonest : FileSystem.Honest contents fs)
    (hsize : 0 < config.blockSize.toNat) (hanswer : (c.supply key).answer = .ok data) :
    exists handle file, openingIn? log key.fd = some handle ∧ contents handle = some file := by
  rw [supply, h.coherent.config_eq] at hanswer
  rcases FileTable.fetch_eq (hhonest.later h.later) hsize hanswer with
    ⟨handle, file, hhandle, hfile, -⟩
  rw [h.table.files] at hhandle
  exact ⟨handle, file, h.table.unchanged key.fd handle hhandle, hfile⟩

theorem Upheld.exists_file {key : BlockKey} {found : Option Slot}
    {step : Step (FileTable φ η) (Except Error (Option Slot))} (h : Upheld contents fs log c s)
    (hhonest : FileSystem.Honest contents fs) (hsize : 0 < config.blockSize.toNat)
    (haccessed : Accessed c s key step s') (hvalue : step.value = .ok found) :
    exists handle file, openingIn? log key.fd = some handle ∧ contents handle = some file := by
  cases haccessed with
  | hit hmem hkey =>
      have hbytes := h.bytesIn_ne_nil (CutSequence.mem_holdings hmem)
      rcases exists_file_of_bytesIn hbytes with ⟨handle, file, hopening, hfile⟩
      exact ⟨handle, file, hkey ▸ hopening, hfile⟩
  | failed | oversized => cases hvalue
  | pastEnd habsent hanswer => exact h.exists_file_of_answer hhonest hsize hanswer
  | admitted habsent hanswer => exact h.exists_file_of_answer hhonest hsize hanswer

/-!
# Descriptors that are not open
-/

/-- The first block from `first` to `last` that is not resident. -/
structure FirstAbsent (resident : BlockIndex -> Prop) (first last : Nat) (index : BlockIndex) :
    Prop where
  first_le : first <= index.number.toNat
  le_last : index.number.toNat <= last
  absent : ¬resident index
  before : forall other, first <= other.number.toNat ->
    other.number.toNat < index.number.toNat -> resident other

theorem FirstAbsent.of_absent {resident : BlockIndex -> Prop} {first last : Nat}
    {index : BlockIndex} (hindex : index.number.toNat = first) (hle : first <= last)
    (habsent : ¬resident index) : FirstAbsent resident first last index where
  first_le := Nat.le_of_eq hindex.symm
  le_last := hindex ▸ hle
  absent := habsent
  before _ hfirst hlt := absurd (hindex ▸ hlt) (Nat.not_lt.mpr hfirst)

theorem FirstAbsent.of_congr {resident resident' : BlockIndex -> Prop} {first last : Nat}
    {index : BlockIndex} (h : FirstAbsent resident first last index)
    (hiff : forall other, resident other <-> resident' other) :
    FirstAbsent resident' first last index where
  first_le := h.first_le
  le_last := h.le_last
  absent hresident := h.absent ((hiff index).mpr hresident)
  before other hfirst hlt := (hiff other).mp (h.before other hfirst hlt)

theorem FirstAbsent.extend {resident : BlockIndex -> Prop} {first next last : Nat}
    {index piece : BlockIndex} (h : FirstAbsent resident next last index)
    (hpiece : piece.number.toNat = first) (hresident : resident piece) (hle : first <= next)
    (hnext : next <= first + 1) : FirstAbsent resident first last index where
  first_le := Nat.le_trans hle h.first_le
  le_last := h.le_last
  absent := h.absent
  before other hfirst hlt := by
    rcases Nat.eq_or_lt_of_le hfirst with heq | hlater
    · have hsame : other = piece := by
        cases other
        cases piece
        exact congrArg BlockIndex.mk (UInt64.toNat_inj.mp (heq.symm.trans hpiece.symm))
      rw [hsame]
      exact hresident
    · exact h.before other (Nat.le_trans hnext hlater) hlt

section Refusals

variable {σ : Type} [BlockSource σ] {c : Cache σ} {key : BlockKey} {e : Error}
  {step : Step σ (Except Error (Option Slot))}

theorem Accessed.resident_of_refused {found : Option Slot} (h : Accessed c s key step s')
    (hrefused : (c.supply key).answer = .error e) (hvalue : step.value = .ok found) :
    found ≠ none ∧ key ∈ s.keys ∧ step.cache.source = c.source ∧ s'.keys.Perm s.keys := by
  cases h with
  | hit hmem hkey =>
      cases hvalue
      exact ⟨Option.some_ne_none _, hkey ▸ CutSequence.mem_keys hmem, rfl, s.keys_touch_perm _⟩
  | failed habsent hanswer => cases hvalue
  | oversized habsent hanswer | pastEnd habsent hanswer | admitted habsent hanswer =>
      rw [hanswer] at hrefused
      cases hrefused

theorem Accessed.absent_of_refused {e' : Error} (h : Accessed c s key step s')
    (hrefused : (c.supply key).answer = .error e) (hvalue : step.value = .error e') :
    e' = e ∧ key ∉ s.keys ∧ step.cache.source = (c.supply key).source := by
  cases h with
  | hit hmem hkey => cases hvalue
  | failed habsent hanswer =>
      cases hvalue
      rw [hanswer] at hrefused
      exact ⟨Except.error.inj hrefused, absent_iff.mp habsent, rfl⟩
  | oversized habsent hanswer | pastEnd habsent hanswer | admitted habsent hanswer =>
      rw [hanswer] at hrefused
      cases hrefused

end Refusals

def refusedCall (fd : FileDescriptor) (index : BlockIndex) : Call :=
  ⟨⟨fd, index⟩, .error (.badDescriptor fd)⟩

theorem supply_of_unknown {c : Cache (Recorded (FileTable φ η))} {fd : FileDescriptor}
    (h : c.source.source.files[fd]? = none) (index : BlockIndex) :
    (c.supply ⟨fd, index⟩).answer = .error (.badDescriptor fd) ∧
      (c.supply ⟨fd, index⟩).source.calls = refusedCall fd index :: c.source.calls := by
  have hfetch := FileTable.fetch_of_unknown h index c.config.blockSize
  have hanswer : (c.supply ⟨fd, index⟩).answer = .error (.badDescriptor fd) :=
    congrArg Fetched.answer hfetch
  refine ⟨hanswer, ?_⟩
  show Call.mk ⟨fd, index⟩ (c.supply ⟨fd, index⟩).answer :: c.source.calls = _
  rw [hanswer]
  rfl

/--
How a read of the blocks from `first` to `last` goes if the file is not open: it is answered
without a fetch, or it fails with the fetch of the first block that is not resident.
-/
def ReadWithoutFile (fd : FileDescriptor) (resident : BlockIndex -> Prop) (first last : Nat)
    (result : Except Error Nat) (calls calls' : List Call) : Prop :=
  ((exists n, result = .ok n) ∧ calls' = calls) ∨
    exists index, FirstAbsent resident first last index ∧
      result = .error (.badDescriptor fd) ∧ calls' = refusedCall fd index :: calls

theorem ReadPieces.withoutFile {c : Cache (Recorded (FileTable φ η))} {fd : FileDescriptor}
    {pieces : List Piece} {buf : Bytes}
    {step : Step (Recorded (FileTable φ η)) (Reading (Except Error Nat))}
    {size origin stop pos : Nat} (hread : ReadPieces fd pieces c s buf step s')
    (hunknown : c.source.source.files[fd]? = none) (hsize : 0 < size)
    (htiled : Tiled size origin stop pos pieces) :
    ReadWithoutFile fd (fun index => ⟨fd, index⟩ ∈ s.keys) (pos / size) ((stop - 1) / size)
      step.value.result c.source.calls step.cache.source.calls := by
  induction hread generalizing pos with
  | done => exact .inl ⟨⟨0, rfl⟩, rfl⟩
  | failed haccessed hvalue =>
      rename_i piece rest c s s' buf accessed e
      rcases supply_of_unknown hunknown piece.index with ⟨hanswer, hcalls⟩
      rcases haccessed.absent_of_refused hanswer hvalue with ⟨rfl, habsent, hsource⟩
      rcases htiled with ⟨hlt, hindex, -, -, -, -⟩
      have hle : pos / size <= (stop - 1) / size :=
        Nat.div_le_div_right (Nat.le_sub_one_of_lt hlt)
      exact .inr ⟨piece.index, .of_absent hindex hle habsent, rfl,
        (congrArg Recorded.calls hsource).trans hcalls⟩
  | pastEnd haccessed hvalue =>
      rename_i piece rest c s s' buf accessed
      have hanswer := (supply_of_unknown hunknown piece.index).1
      exact absurd rfl (haccessed.resident_of_refused hanswer hvalue).1
  | short haccessed hvalue hmem hkey hshort =>
      rename_i piece rest c s s' buf accessed slot block
      have hanswer := (supply_of_unknown hunknown piece.index).1
      rcases haccessed.resident_of_refused hanswer hvalue with ⟨-, -, hsource, -⟩
      exact .inl ⟨⟨_, rfl⟩, congrArg Recorded.calls hsource⟩
  | full haccessed hvalue hmem hkey hall hmore ih =>
      rename_i piece rest c s s' s'' buf accessed slot block more
      have hanswer := (supply_of_unknown hunknown piece.index).1
      rcases haccessed.resident_of_refused hanswer hvalue with ⟨-, hresident, hsource, hperm⟩
      have hnext := htiled.next_div_le hsize
      rcases htiled with ⟨-, hindex, -, -, -, hrest⟩
      rcases ih (hsource ▸ hunknown) hrest with
        ⟨⟨n, hn⟩, hcalls⟩ | ⟨index, hfirst, hresult, hcalls⟩
      · refine .inl ⟨⟨piece.len + n, ?_⟩, ?_⟩
        · rw [hn]
          rfl
        · rw [hcalls, hsource]
      · have hkeys := hfirst.of_congr fun other => hperm.mem_iff
        refine .inr ⟨index, hkeys.extend hindex hresident ?_ hnext, ?_, ?_⟩
        · exact Nat.div_le_div_right (Nat.le_add_right _ _)
        · rw [hresult]
          rfl
        · rw [hcalls, hsource]

theorem ReadDone.withoutFile {c : Cache (Recorded (FileTable φ η))} {fd : FileDescriptor}
    {offset : ByteOffset} {buf : Bytes}
    {step : Step (Recorded (FileTable φ η)) (Reading (Except Error Nat))}
    (hread : ReadDone c s fd offset buf step s') (hunknown : c.source.source.files[fd]? = none)
    (hsize : 0 < config.blockSize.toNat)
    (hrange : offset.number.toNat + buf.length < UInt64.size) :
    ReadWithoutFile fd (fun index => ⟨fd, index⟩ ∈ s.keys)
      (offset.number.toNat / config.blockSize.toNat)
      ((offset.number.toNat + buf.length - 1) / config.blockSize.toNat) step.value.result
      c.source.calls step.cache.source.calls := by
  cases hread with
  | refused hover => exact absurd hrange (Nat.not_lt.mpr hover)
  | empty hnil => exact .inl ⟨⟨0, rfl⟩, rfl⟩
  | failed htiled hpieces hfailed => exact hpieces.withoutFile hunknown hsize htiled
  | finished htiled hpieces hfinished => exact hpieces.withoutFile hunknown hsize htiled

/-!
# Reads in sessions
-/

theorem Upheld.read_copied {fd : FileDescriptor} {offset : ByteOffset} {buf : Bytes} {n : Nat}
    {step : Step (FileTable φ η) (Reading (Except Error Nat))}
    (h : Upheld contents fs log c s) (hhonest : FileSystem.Honest contents fs)
    (hsize : 0 < config.blockSize.toNat) (hread : ReadDone c s fd offset buf step s')
    (hne : buf ≠ []) (hresult : step.value.result = .ok n) :
    exists path handle file, .opened path fd handle ∈ log ∧ contents handle = some file ∧
      n = min buf.length (file.bytes.length - offset.number.toNat) ∧
      step.value.buf = (file.bytes.drop offset.number.toNat).take n ++ buf.drop n := by
  rcases hread.exists_accessed hne hresult with ⟨index, accessed, s₁, found, haccessed, hvalue⟩
  rcases h.exists_file hhonest hsize haccessed hvalue with ⟨handle, file, hopening, hfile⟩
  rcases exists_opened_of_openingIn? hopening with ⟨path, hopened⟩
  have hcopied := hread.copied (h.truthful hhonest hsize) hsize hresult
  rw [bytesIn_eq hopening hfile] at hcopied
  exact ⟨path, handle, file, hopened, hfile, hcopied⟩

theorem Upheld.read_withoutFile {fd : FileDescriptor} {offset : ByteOffset} {buf : Bytes}
    {step : Step (FileTable φ η) (Reading (Except Error Nat))}
    (h : Upheld contents fs log c s) (hvalid : config.Valid)
    (hread : c.read fd offset buf = .ok step) (hclosed : handleIn? log fd = none)
    (hrange : offset.number.toNat + buf.length < UInt64.size) :
    Completes (c.recorded.read fd offset buf) fun twin =>
      twin.unrecorded = step ∧
        ReadWithoutFile fd (fun index => c.isResident fd index = true)
          (offset.number.toNat / config.blockSize.toNat)
          ((offset.number.toNat + buf.length - 1) / config.blockSize.toNat) step.value.result
          [] twin.cache.source.calls := by
  apply (read_twin_completes hvalid h.coherent fd offset buf).mono
  intro twin htwin
  rcases htwin with ⟨hsame, s', hdone, -⟩
  have hstep : step = twin.unrecorded := Except.ok.inj (hread.symm.trans hsame)
  have hunknown : c.source.files[fd]? = none := (h.table.files fd).trans hclosed
  have hwithout := hdone.withoutFile hunknown hvalid.blockSize_pos hrange
  rw [hstep]
  refine ⟨rfl, ?_⟩
  rcases hwithout with hanswered | ⟨index, hfirst, hresult, hcalls⟩
  · exact .inl hanswered
  · have hresident := hfirst.of_congr fun other => h.coherent.isResident_iff_keys.symm
    exact .inr ⟨index, hresident, hresult, hcalls⟩

/--
Whatever files are opened and closed, and whatever the cache does in between, descriptors
count the openings. A read into a buffer that is not empty gives, if it succeeds, the bytes of
a file that was opened under its descriptor, also after that was closed. If the descriptor is
not open, the read makes no fetch, or a single one that fails, for the first block of its range
that is not resident.
-/
theorem session_reads_own_files (hvalid : config.Valid)
    (hhonest : FileSystem.Honest contents fs) (requests : List Request) :
    Completes (create config (FileTable.empty fs)) fun created =>
      Completes (Session.attendAll ⟨created.cache, []⟩ requests) fun session =>
        (descriptorsIn session.log).map (fun fd => fd.number.toInt) =
            (List.range (descriptorsIn session.log).length).map Int.ofNat ∧
          forall (fd : FileDescriptor) (offset : ByteOffset) (buf : Bytes), buf ≠ [] ->
            Completes (session.cache.read fd offset buf) fun step =>
              (forall n, step.value.result = .ok n -> exists path handle file,
                .opened path fd handle ∈ session.log ∧ contents handle = some file ∧
                  n = min buf.length (file.bytes.length - offset.number.toNat) ∧
                  step.value.buf =
                    (file.bytes.drop offset.number.toNat).take n ++ buf.drop n) ∧
              (handleIn? session.log fd = none ->
                offset.number.toNat + buf.length < UInt64.size ->
                  Completes (session.cache.recorded.read fd offset buf) fun twin =>
                    twin.unrecorded = step ∧
                      ReadWithoutFile fd (fun index => session.cache.isResident fd index = true)
                        (offset.number.toNat / config.blockSize.toNat)
                        ((offset.number.toNat + buf.length - 1) / config.blockSize.toNat)
                        step.value.result [] twin.cache.source.calls) := by
  apply (create_completes hvalid (FileTable.empty fs)).mono
  intro created hcreated
  have hempty : Upheld contents fs [] created.cache (.empty : Contents config) :=
    upheld_empty hcreated.2 hcreated.1
  apply (hempty.attendAll_completes hvalid hhonest requests).mono
  intro session hsession
  rcases hsession with ⟨s, h⟩
  refine ⟨h.table.numbers, ?_⟩
  intro fd offset buf hne
  rcases read_completes hvalid h.coherent fd offset buf with ⟨step, hread, s', hdone, -⟩
  refine ⟨step, hread, ?_, ?_⟩
  · intro n hresult
    exact h.read_copied hhonest hvalid.blockSize_pos hdone hne hresult
  · intro hclosed hrange
    exact h.read_withoutFile hvalid hread hclosed hrange

end Cache

/-!
# A session
-/

structure Trickle where
  files : List (String × RegularFile)

namespace Trickle

instance : FileSystem Trickle RegularFile where
  openPath fs path :=
    match fs.files.lookup path with
    | none => (.error (.os .noSuchFile), fs)
    | some file => (.ok file, fs)
  readAt fs file position _ := (.ok ((file.bytes.drop position.toNat).take 1), fs)
  interruptions _ := 0
  interruptions_lt hread := by cases hread

theorem honest (fs : Trickle) : FileSystem.Honest some fs := by
  intro later hlater file position wanted bytes hwanted hread
  cases hread
  have hfront := List.take_prefix 1 (file.bytes.drop position.toNat)
  refine ⟨file, rfl, hfront, ?_⟩
  intro hnil
  rcases List.take_eq_nil_iff.mp hnil with hone | hend
  · cases hone
  · exact List.drop_eq_nil_iff.mp hend

def fiveBytes : RegularFile :=
  ⟨[1, 2, 3, 4, 5], by decide⟩

def twoFiles : Trickle :=
  ⟨[("a", fiveBytes), ("b", ⟨[6, 7], by decide⟩)]⟩

end Trickle

def Request.swap : List Request :=
  [.openPath "a", .perform (.read ⟨0⟩ ⟨0⟩ [0, 0, 0]), .close ⟨0⟩, .openPath "c", .openPath "b"]

namespace Cache

def afterSwap : Option (List Bytes × Bool × Except Error Nat × Except Error Nat) := do
  let created <- (create threeBlocks (FileTable.empty Trickle.twoFiles)).toOption
  let session <- (Session.attendAll ⟨created.cache, []⟩ Request.swap).toOption
  let inside <- (session.cache.read ⟨0⟩ ⟨1⟩ [9, 9]).toOption
  let across <- (session.cache.read ⟨0⟩ ⟨3⟩ [9, 9]).toOption
  return ((session.log.filterMap (FileChange.opening? ⟨0⟩)).map RegularFile.bytes,
    (handleIn? session.log ⟨0⟩).isSome, inside.value.result, across.value.result)

theorem session_reads_own_files_after_close :
    threeBlocks.Valid ∧ FileSystem.Honest some Trickle.twoFiles ∧
      Completes (create threeBlocks (FileTable.empty Trickle.twoFiles)) fun created =>
        Completes (Session.attendAll ⟨created.cache, []⟩ Request.swap) fun session =>
          (handleIn? session.log ⟨0⟩).isSome = false ∧
            (Completes (session.cache.read ⟨0⟩ ⟨1⟩ [9, 9]) fun step =>
              step.value.result = .ok 2 ∧ step.value.buf = [2, 3]) ∧
            Completes (session.cache.read ⟨0⟩ ⟨3⟩ [9, 9]) fun step =>
              Completes (session.cache.recorded.read ⟨0⟩ ⟨3⟩ [9, 9]) fun twin =>
                twin.unrecorded = step ∧ exists index,
                  FirstAbsent (fun index => session.cache.isResident ⟨0⟩ index = true) 1 2 index ∧
                    twin.cache.source.calls = [refusedCall ⟨0⟩ index] := by
  have hhonest := Trickle.honest Trickle.twoFiles
  rcases session_reads_own_files threeBlocks_valid hhonest Request.swap with
    ⟨created, hcreate, session, hsession, -, hreads⟩
  rcases hreads ⟨0⟩ ⟨1⟩ [9, 9] (by decide) with ⟨inside, hinside, hcopied, -⟩
  rcases hreads ⟨0⟩ ⟨3⟩ [9, 9] (by decide) with ⟨across, hacross, -, hwithout⟩
  have hseen : afterSwap =
      some ([[1, 2, 3, 4, 5]], false, .ok 2, .error (.badDescriptor ⟨0⟩)) := by
    decide +kernel
  simp only [afterSwap, hcreate, hsession, hinside, hacross, Except.toOption, Option.bind_eq_bind,
    Option.bind_some, Option.pure_def, Option.some.injEq, Prod.mk.injEq] at hseen
  rcases hseen with ⟨hfiles, hclosed, hresult, hresult'⟩
  refine ⟨threeBlocks_valid, hhonest, created, hcreate, session, hsession, hclosed,
    ⟨inside, hinside, hresult, ?_⟩, across, hacross, ?_⟩
  · rcases hcopied 2 hresult with ⟨path, handle, file, hopened, hfile, -, hbuf⟩
    cases hfile
    have hopening : handle ∈ session.log.filterMap (FileChange.opening? ⟨0⟩) :=
      List.mem_filterMap.mpr ⟨_, hopened, rfl⟩
    have hbytes := List.mem_map_of_mem (f := RegularFile.bytes) hopening
    rw [hfiles, List.mem_singleton] at hbytes
    rw [hbuf, hbytes]
    rfl
  · have hnone := Option.isSome_eq_false_iff.mp hclosed
    apply (hwithout (Option.isNone_iff_eq_none.mp hnone) (by decide)).mono
    intro twin htwin
    rcases htwin with ⟨hsame, hanswered | ⟨index, hfirst, -, hcalls⟩⟩
    · rcases hanswered with ⟨⟨n, hn⟩, -⟩
      rw [hn] at hresult'
      cases hresult'
    · exact ⟨hsame, index, hfirst, hcalls⟩

end Cache
end BlockCache
