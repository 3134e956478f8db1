import BlockCache.Proofs.Cache.ReadParts

/-!
# Reads with the conventions of a system call

Who reads with the conventions of a system call sees a single number: the count of bytes,
or the number of the error with its sign turned. The sign tells failures from counts for
every error that the cache makes itself. It does not for an error that the source has taken
over from the operating system, whose number is passed on as it is: if that number is not
positive, the failure looks like the end of a file or like data.
-/

namespace BlockCache

namespace Error

/-- An error of the operating system whose number does not say that something has failed. -/
def isSilent : Error -> Bool
  | .io (.os error) => error.number <= 0
  | _ => false

theorem isSilent_iff {e : Error} :
    e.isSilent = true <-> exists error, e = .io (.os error) ∧ error.number <= 0 := by
  constructor
  · intro h
    cases e with
    | io cause =>
        cases cause with
        | os error => exact ⟨error, rfl, of_decide_eq_true h⟩
        | described text => cases h
    | _ => cases h
  · rintro ⟨error, rfl, hnumber⟩
    exact decide_eq_true hnumber

theorem number_pos_iff (e : Error) : 0 < e.osError.number.toInt <-> e.isSilent = false := by
  cases e with
  | io cause =>
      cases cause with
      | os error =>
          have hsilent : (Error.io (.os error)).isSilent = false <-> ¬ error.number <= 0 :=
            decide_eq_false_iff_not
          rw [hsilent, Int32.le_iff_toInt_le]
          exact Int.not_le.symm
      | described text => exact iff_of_true (of_decide_eq_true rfl) rfl
  | _ => exact iff_of_true (of_decide_eq_true rfl) rfl

end Error

namespace Cache

theorem returnCode_neg_iff (e : Error) : returnCode (.error e) < 0 <-> e.isSilent = false := by
  rw [<- e.number_pos_iff]
  exact Int.neg_lt_zero_iff

section Counts

variable {σ : Type} [BlockSource σ] {config : Config} {c : Cache σ} {s s' : Contents config}
  {fd : FileDescriptor} {buf : Bytes} {step : Step σ (Reading (Except Error Nat))}

theorem ReadDone.length_buf {offset : ByteOffset} (h : ReadDone c s fd offset buf step s') :
    step.value.buf.length = buf.length := by
  cases h with
  | refused | empty => rfl
  | failed htiled hpieces hfailed => exact hpieces.length_buf fun _ => htiled.inside_length
  | finished htiled hpieces hfinished => exact hpieces.length_buf fun _ => htiled.inside_length

end Counts

theorem ReadDone.exists_silent_call {σ : Type} [BlockSource σ] {config : Config}
    {c : Cache (Recorded σ)} {s s' : Contents config} {fd : FileDescriptor} {offset : ByteOffset}
    {buf : Bytes} {step : Step (Recorded σ) (Reading (Except Error Nat))} {e : Error}
    (h : ReadDone c s fd offset buf step s') (hresult : step.value.result = .error e)
    (hsilent : e.isSilent = true) : exists key, ⟨key, .error e⟩ ∈ step.cache.source.calls := by
  rcases h.exists_cause hresult with ⟨-, hrange⟩ | ⟨c₁, s₁, key, -, hcall, hcause⟩
  · rw [hrange] at hsilent
    cases hsilent
  · cases hcause with
    | failed hanswer => exact ⟨key, hanswer ▸ hcall⟩
    | oversized hanswer hsize => cases hsilent

section Signs

variable {σ : Type} {config : Config}

/-- What a caller is told of the `read` of the first `size` bytes of `buf`. -/
structure Signed (size : Nat) (buf : Bytes) (read : Step σ (Reading (Except Error Nat)))
    (raw : Step σ (Reading Int)) : Prop where
  cache : raw.cache = read.cache
  events : raw.events = read.events
  buffer : raw.value.buf = read.value.buf ++ buf.drop size
  length : read.value.buf.length = size
  count : forall n, read.value.result = .ok n -> raw.value.result = n ∧ n <= size
  code : forall e, read.value.result = .error e ->
    raw.value.result = -e.osError.number.toInt ∧ (raw.value.result < 0 <-> e.isSilent = false)

section Told

variable {size : Nat} {buf : Bytes} {read : Step σ (Reading (Except Error Nat))}
  {raw : Step σ (Reading Int)}

theorem Signed.isSilent_of_nonneg {e : Error} (h : Signed size buf read raw)
    (hresult : read.value.result = .error e) (hsign : 0 <= raw.value.result) :
    e.isSilent = true := by
  rw [<- Bool.not_eq_false, <- (h.code e hresult).2]
  exact Int.not_lt.mpr hsign

theorem Signed.neg_iff (h : Signed size buf read raw)
    (hloud : forall e, read.value.result = .error e -> e.isSilent = false) :
    raw.value.result < 0 <-> exists e, read.value.result = .error e := by
  constructor
  · intro hneg
    cases hresult : read.value.result with
    | error e => exact ⟨e, rfl⟩
    | ok n =>
        rw [(h.count n hresult).1] at hneg
        exact absurd hneg (Int.not_lt.mpr (Int.natCast_nonneg n))
  · rintro ⟨e, hresult⟩
    exact (h.code e hresult).2.mpr (hloud e hresult)

end Told

variable [BlockSource σ]

theorem ReadDone.signed {c : Cache σ} {s s' : Contents config} {fd : FileDescriptor}
    {offset : ByteOffset} {buf : Bytes} {size : Nat}
    {step : Step σ (Reading (Except Error Nat))} (hsize : size <= buf.length)
    (h : ReadDone c s fd offset (buf.take size) step s') :
    Signed size buf step (rawStep (buf.drop size) step) := by
  have hlength : (buf.take size).length = size := List.length_take_of_le hsize
  constructor
  · rfl
  · rfl
  · rfl
  · exact h.length_buf.trans hlength
  · intro n hresult
    refine ⟨congrArg returnCode hresult, ?_⟩
    rw [<- hlength]
    exact h.copied_le hresult
  · intro e hresult
    have hcode : (rawStep (buf.drop size) step).value.result = returnCode (.error e) :=
      congrArg returnCode hresult
    rw [hcode]
    exact ⟨rfl, returnCode_neg_iff e⟩

/--
A raw read always returns, and leaves the bytes from `size` on alone. A size beyond the
buffer gives a negative number and changes nothing. Otherwise a read of the first `size`
bytes is made: its count is returned as it is and is never negative, and an error gives a
negative number unless the error is silent. Then it is the answer to a fetch of this very
read. So the sign tells failures from counts wherever no fetch is answered by a silent error.
-/
theorem readRaw_signed {c : Cache σ} (hreachable : Reachable config c) (fd : FileDescriptor)
    (offset : ByteOffset) (size : Nat) (buf : Bytes) :
    Completes (c.readRaw fd offset size buf) fun raw =>
      raw.value.buf.length = buf.length ∧ raw.value.buf.drop size = buf.drop size ∧
        (buf.length < size -> raw.value.result < 0 ∧ raw.value.buf = buf ∧ raw.cache = c ∧
          raw.events = []) ∧
        (size <= buf.length ->
          Completes (c.recorded.read fd offset (buf.take size)) fun twin =>
            c.read fd offset (buf.take size) = .ok twin.unrecorded ∧
              Signed size buf twin.unrecorded raw ∧
              (forall e, twin.value.result = .error e -> 0 <= raw.value.result ->
                (exists error, e = .io (.os error) ∧ error.number <= 0) ∧
                  exists key, ⟨key, .error e⟩ ∈ twin.cache.source.calls) ∧
              ((forall key e, ⟨key, .error e⟩ ∈ twin.cache.source.calls -> e.isSilent = false) ->
                (raw.value.result < 0 <-> exists e, twin.value.result = .error e))) := by
  rcases hreachable.coherent with ⟨hvalid, s, h⟩
  rcases Nat.lt_or_ge buf.length size with hsize | hsize
  · rw [readRaw_of_lt hsize]
    refine Completes.ok ⟨rfl, rfl, fun _ => ⟨(returnCode_neg_iff _).mpr rfl, rfl, rfl, rfl⟩, ?_⟩
    intro hle
    exact absurd hsize (Nat.not_lt.mpr hle)
  · rcases read_twin_completes hvalid h fd offset (buf.take size) with
      ⟨twin, htwin, hread, s', hdone, -⟩
    have htold : Signed size buf twin.unrecorded (rawStep (buf.drop size) twin.unrecorded) := by
      have hsigned := hdone.signed hsize
      exact ⟨rfl, rfl, rfl, hsigned.length, hsigned.count, hsigned.code⟩
    rw [readRaw_of_le hsize, hread]
    refine Completes.ok ⟨?_, ?_, ?_, ?_⟩
    · rw [htold.buffer, List.length_append, htold.length, List.length_drop]
      omega
    · rw [htold.buffer, List.drop_left' htold.length]
    · intro hlt
      exact absurd hlt (Nat.not_lt.mpr hsize)
    · intro _
      refine ⟨twin, htwin, rfl, htold, ?_, ?_⟩
      · intro e hresult hsign
        have hsilent := htold.isSilent_of_nonneg hresult hsign
        exact ⟨Error.isSilent_iff.mp hsilent, hdone.exists_silent_call hresult hsilent⟩
      · intro hcalls
        apply htold.neg_iff
        intro e hresult
        rw [<- Bool.not_eq_true]
        intro hsilent
        rcases hdone.exists_silent_call hresult hsilent with ⟨key, hcall⟩
        rw [hcalls key e hcall] at hsilent
        cases hsilent

theorem readRaw_signed_lost_block :
    exists c : Cache MemoryFiles, Reachable threeBlocks c ∧
      Completes (c.readRaw ⟨5⟩ ⟨0⟩ 7 [0, 0, 0, 0, 0, 0, 0, 0, 0]) fun raw =>
        raw.value = ⟨-5, [1, 2, 3, 4, 5, 6, 0, 0, 0]⟩ ∧
          Completes (c.recorded.read ⟨5⟩ ⟨0⟩ [0, 0, 0, 0, 0, 0, 0]) fun twin =>
            Signed 7 [0, 0, 0, 0, 0, 0, 0, 0, 0] twin.unrecorded raw ∧
              exists e, twin.value.result = .error e := by
  have hrun : Completes (create threeBlocks lostBlock) fun created =>
      Completes (created.cache.readRaw ⟨5⟩ ⟨0⟩ 7 [0, 0, 0, 0, 0, 0, 0, 0, 0]) fun raw =>
        raw.value = ⟨-5, [1, 2, 3, 4, 5, 6, 0, 0, 0]⟩ ∧
          Completes (created.cache.recorded.read ⟨5⟩ ⟨0⟩ [0, 0, 0, 0, 0, 0, 0]) fun twin =>
            twin.value.result = .error (.fetch ⟨5⟩ ⟨3⟩ "lost") :=
    ⟨_, rfl, _, rfl, rfl, _, rfl, rfl⟩
  rcases hrun with ⟨created, hcreate, raw, hraw, hvalue, twin, htwin, hresult⟩
  have hreachable := Reachable.created hcreate
  have hsigned := readRaw_signed hreachable ⟨5⟩ ⟨0⟩ 7 [0, 0, 0, 0, 0, 0, 0, 0, 0]
  rcases hsigned.of_eq hraw with ⟨-, -, -, hreads⟩
  rcases (hreads (by decide)).of_eq htwin with ⟨-, htold, -, -⟩
  exact ⟨created.cache, hreachable, raw, hraw, hvalue, twin, htwin, htold, _, hresult⟩

def silentFiles : MemoryFiles :=
  let files := (MemoryFiles.put ⟨∅, []⟩ ⟨5⟩ (.stored [1, 2, 3])).put ⟨6⟩ (.stored [4, 5, 6])
  (files.addFault ⟨⟨5⟩, none, none, .fail (.io (.os .success))⟩).addFault
    ⟨⟨6⟩, none, none, .fail (.io (.os ⟨-7⟩))⟩

/-- One failure is returned as the end of the file, the other as more bytes than were wanted. -/
theorem readRaw_of_silent_files :
    Completes (create threeBlocks silentFiles) fun created =>
      (Completes (created.cache.read ⟨5⟩ ⟨0⟩ [0]) fun step =>
        step.value.result = .error (.io (.os .success))) ∧
      (Completes (created.cache.readRaw ⟨5⟩ ⟨0⟩ 1 [0]) fun raw => raw.value = ⟨0, [0]⟩) ∧
      (Completes (created.cache.read ⟨6⟩ ⟨0⟩ [0]) fun step =>
        step.value.result = .error (.io (.os ⟨-7⟩))) ∧
      Completes (created.cache.readRaw ⟨6⟩ ⟨0⟩ 1 [0]) fun raw => raw.value = ⟨7, [0]⟩ :=
  ⟨_, rfl, ⟨_, rfl, rfl⟩, ⟨_, rfl, rfl⟩, ⟨_, rfl, rfl⟩, _, rfl, rfl⟩

end Signs

end Cache
end BlockCache
