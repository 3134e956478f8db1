import BlockCache.Proofs.Cache.Equivalence
import BlockCache.Proofs.Cache.Totals

/-!
# Reads in parts

The pieces of a read are read one after the other, and a piece knows nothing of the others
but what they have left in the cache. So pieces can be read in two goes: the second is the
read of what is left, if the first was given all that it asked for, and is not made
otherwise. For whole reads this says that a read may be split wherever a block ends.
-/

namespace BlockCache

theorem Tiled.unique {size origin stop pos : Nat} {pieces pieces' : List Piece}
    (h : Tiled size origin stop pos pieces) (h' : Tiled size origin stop pos pieces') :
    pieces = pieces' := by
  induction pieces generalizing pos pieces' with
  | nil =>
      cases pieces' with
      | nil => rfl
      | cons => exact absurd h (Nat.ne_of_lt h'.1)
  | cons piece rest ih =>
      cases pieces' with
      | nil => exact absurd h' (Nat.ne_of_lt h.1)
      | cons piece' rest' =>
          rcases h with ⟨-, hindex, hstart, hlen, hdest, hrest⟩
          rcases h' with ⟨-, hindex', hstart', hlen', hdest', hrest'⟩
          have hlens : piece.len = piece'.len := hlen.trans hlen'.symm
          have hpiece : piece = piece' := by
            rcases piece with ⟨⟨index⟩, start, len, dest⟩
            rcases piece' with ⟨⟨index'⟩, start', len', dest'⟩
            have hindices : index = index' := UInt64.toNat_inj.mp (hindex.trans hindex'.symm)
            have hstarts : start = start' := hstart.trans hstart'.symm
            have hdests : dest = dest' := hdest.trans hdest'.symm
            have hlens : len = len' := hlens
            rw [hindices, hstarts, hlens, hdests]
          rw [<- hlens] at hrest'
          rw [hpiece, ih hrest hrest']

theorem Tiled.append {size origin mid stop pos : Nat} {front back : List Piece}
    (hsize : 0 < size) (hmid : size ∣ mid) (hstop : mid <= stop)
    (hfront : Tiled size origin mid pos front) (hback : Tiled size origin stop mid back) :
    Tiled size origin stop pos (front ++ back) := by
  induction front generalizing pos with
  | nil =>
      have hpos : pos = mid := hfront
      rw [hpos]
      exact hback
  | cons piece rest ih =>
      rcases hfront with ⟨hlt, hindex, hstart, hlen, hdest, hrest⟩
      have hends : pos + (size - pos % size) <= mid := by
        rcases hmid with ⟨k, rfl⟩
        have hblock : pos / size + 1 <= k := Nat.div_lt_of_lt_mul hlt
        have hmul : size * (pos / size + 1) <= size * k := Nat.mul_le_mul_left size hblock
        have hdiv := Nat.div_add_mod pos size
        have hmod := Nat.mod_lt pos hsize
        rw [Nat.mul_add, Nat.mul_one] at hmul
        omega
      exact ⟨Nat.lt_of_lt_of_le hlt hstop, hindex, hstart, by omega, hdest, ih hrest⟩

theorem Tiled.split {size origin stop pos : Nat} {front back : List Piece} {piece : Piece}
    (hsize : 0 < size) (h : Tiled size origin stop pos (front ++ piece :: back)) :
    exists mid, pos <= mid ∧ mid < stop ∧ piece.dest = mid - origin ∧
      Tiled size origin mid pos front := by
  induction front generalizing pos with
  | nil => exact ⟨pos, Nat.le_refl _, h.1, h.2.2.2.2.1, rfl⟩
  | cons first rest ih =>
      rcases h with ⟨hlt, hindex, hstart, hlen, hdest, hrest⟩
      rcases ih hrest with ⟨mid, hpos, hmid, hpiece, htiled⟩
      have hmod := Nat.mod_lt pos hsize
      have hfirst : pos < mid := by omega
      exact ⟨mid, Nat.le_of_lt hfirst, hmid, hpiece, hfirst, hindex, hstart, by omega, hdest,
        htiled⟩

theorem Tiled.total_len {size origin stop pos : Nat} {pieces : List Piece}
    (h : Tiled size origin stop pos pieces) : total Piece.len pieces = stop - pos := by
  induction pieces generalizing pos with
  | nil =>
      have hpos : pos = stop := h
      rw [hpos, Nat.sub_self]
      rfl
  | cons piece rest ih =>
      rcases h with ⟨hlt, -, -, hlen, -, hrest⟩
      rw [total_cons, ih hrest]
      omega

theorem Tiled.total_length {size origin len : Nat} {pieces : List Piece}
    (h : Tiled size origin (origin + len) origin pieces) : total Piece.len pieces = len :=
  h.total_len.trans (Nat.add_sub_cancel_left origin len)

def Piece.shift (n : Nat) (piece : Piece) : Piece :=
  { piece with dest := piece.dest + n }

theorem Piece.map_shift_zero (pieces : List Piece) : pieces.map (Piece.shift 0) = pieces :=
  List.map_id pieces

theorem Tiled.shift {size origin mid stop pos : Nat} {pieces : List Piece} (horigin : origin <= mid)
    (hmid : mid <= pos) (h : Tiled size mid stop pos pieces) :
    Tiled size origin stop pos (pieces.map (Piece.shift (mid - origin))) := by
  induction pieces generalizing pos with
  | nil => exact h
  | cons piece rest ih =>
      rcases h with ⟨hlt, hindex, hstart, hlen, hdest, hrest⟩
      refine ⟨hlt, hindex, hstart, hlen, ?_, ih (Nat.le_trans hmid (Nat.le_add_right _ _)) hrest⟩
      show piece.dest + (mid - origin) = pos - origin
      omega

theorem Tiled.join {size origin len len' : Nat} {front back : List Piece} (hsize : 0 < size)
    (hmid : size ∣ origin + len) (hfront : Tiled size origin (origin + len) origin front)
    (hback : Tiled size (origin + len) (origin + len + len') (origin + len) back) :
    Tiled size origin (origin + (len + len')) origin (front ++ back.map (Piece.shift len)) := by
  have hshifted := hback.shift (Nat.le_add_right origin len) (Nat.le_refl _)
  rw [Nat.add_sub_cancel_left] at hshifted
  rw [<- Nat.add_assoc]
  exact hfront.append hsize hmid (Nat.le_add_right _ _) hshifted

/-!
# Buffers with something around them
-/

theorem patch_append {front buf bytes : Bytes} {pos : Nat} (back : Bytes)
    (h : pos + bytes.length <= buf.length) :
    patch (front ++ (buf ++ back)) (pos + front.length) bytes =
      front ++ (patch buf pos bytes ++ back) := by
  rw [Nat.add_comm pos]
  have hpos : pos <= buf.length := Nat.le_trans (Nat.le_add_right _ _) h
  simp only [patch, Nat.add_assoc, List.take_length_add_append, List.drop_length_add_append,
    List.take_append_of_le_length hpos, List.drop_append_of_le_length h, List.append_assoc]

theorem Piece.copy_shift {piece : Piece} {front buf : Bytes} (back : Bytes)
    (h : piece.dest + piece.len <= buf.length) (data : Bytes) :
    (piece.shift front.length).copy data (front ++ (buf ++ back)) =
      (piece.copy data buf).map fun buf => front ++ (buf ++ back) := by
  have hshift : (piece.shift front.length).dest + (piece.shift front.length).len <=
      (front ++ (buf ++ back)).length := by
    show piece.dest + front.length + piece.len <= _
    rw [List.length_append, List.length_append]
    omega
  have hwanted : piece.dest + (piece.wanted data).length <= buf.length := by
    have hlen : piece.available data <= piece.len := Nat.min_le_left _ _
    rw [length_wanted]
    omega
  rw [copy_eq hshift, copy_eq h]
  exact congrArg Except.ok (patch_append back hwanted)

variable {σ : Type}

/-- The reading of a part of a buffer, seen in the whole buffer. -/
def Step.framed (front back : Bytes) (step : Step σ (Reading (Except Error Nat))) :
    Step σ (Reading (Except Error Nat)) :=
  ⟨⟨step.value.result, front ++ (step.value.buf ++ back)⟩, step.cache, step.events⟩

def Step.resumed (n : Nat) (events : List Event) (step : Step σ (Reading (Except Error Nat))) :
    Step σ (Reading (Except Error Nat)) :=
  ⟨⟨step.value.result.map fun copied => n + copied, step.value.buf⟩, step.cache,
    events ++ step.events⟩

theorem Step.resumed_zero (step : Step σ (Reading (Except Error Nat))) :
    step.resumed 0 [] = step := by
  rcases step with ⟨⟨result, patched⟩, cache, events⟩
  cases result <;> simp [resumed, Except.map]

theorem Step.resumed_resumed (n m : Nat) (events events' : List Event)
    (step : Step σ (Reading (Except Error Nat))) :
    (step.resumed m events').resumed n events = step.resumed (n + m) (events ++ events') := by
  rcases step with ⟨⟨result, patched⟩, cache, stepEvents⟩
  cases result <;> simp [resumed, Except.map, Nat.add_assoc]

namespace Cache

/-- The cache with the bytes of a read counted, unless it has failed. -/
def booked : Except Error Nat -> Cache σ -> Cache σ
  | .error _, c => c
  | .ok n, c => c.recast id n

variable [BlockSource σ]

theorem readPieces_framed (fd : FileDescriptor) {pieces : List Piece} {buf : Bytes} (c : Cache σ)
    (front back : Bytes)
    (hinside : forall piece, piece ∈ pieces -> piece.dest + piece.len <= buf.length) :
    readPieces fd (pieces.map (Piece.shift front.length)) c (front ++ (buf ++ back)) =
      (readPieces fd pieces c buf).map (Step.framed front back) := by
  induction pieces generalizing c buf with
  | nil => rfl
  | cons piece rest ih =>
      have hpiece := hinside piece List.mem_cons_self
      have hindex : (piece.shift front.length).index = piece.index := rfl
      rw [List.map_cons, readPieces, readPieces, hindex]
      cases c.access fd piece.index with
      | error e => rfl
      | ok accessed =>
          simp only [bind, Except.bind]
          rcases accessed.value with e | _ | slot
          · rfl
          · rfl
          · dsimp only
            cases accessed.cache.list.block? slot with
            | none => rfl
            | some block =>
                have havailable : (piece.shift front.length).available block.data =
                    piece.available block.data := rfl
                have hlen : (piece.shift front.length).len = piece.len := rfl
                dsimp only
                rw [Piece.copy_shift back hpiece, Piece.copy_eq hpiece, havailable, hlen]
                simp only [Except.map]
                by_cases hshort : piece.available block.data < piece.len
                · rw [if_pos hshort, if_pos hshort]
                  rfl
                · have hrest : forall other, other ∈ rest -> other.dest + other.len <=
                      (patch buf piece.dest (piece.wanted block.data)).length := by
                    intro other hother
                    rw [Piece.length_patch_wanted hpiece]
                    exact hinside other (List.mem_cons_of_mem _ hother)
                  rw [if_neg hshort, if_neg hshort, ih accessed.cache hrest]
                  cases readPieces fd rest accessed.cache _ <;> rfl

theorem ReadPieces.length_buf {config : Config} {c : Cache σ} {s s' : Contents config}
    {fd : FileDescriptor} {pieces : List Piece} {buf : Bytes}
    {step : Step σ (Reading (Except Error Nat))} (h : ReadPieces fd pieces c s buf step s')
    (hinside : forall piece, piece ∈ pieces -> piece.dest + piece.len <= buf.length) :
    step.value.buf.length = buf.length := by
  induction h with
  | done | failed | pastEnd => rfl
  | short haccessed hvalue hmem hkey hshort =>
      exact Piece.length_patch_wanted (hinside _ List.mem_cons_self) _
  | full haccessed hvalue hmem hkey hall hmore ih =>
      rw [Piece.length_patch_wanted (hinside _ List.mem_cons_self)] at ih
      exact ih fun other hother => hinside other (List.mem_cons_of_mem _ hother)

/-!
# Pieces in two goes
-/

/--
A first piece ends the read, short of what it asked for and whatever was to follow, or all
of it is copied and the read goes on.
-/
theorem readPieces_cons_cases (fd : FileDescriptor) {piece : Piece} (hpos : 0 < piece.len)
    (c : Cache σ) (buf : Bytes) :
    (exists ended, (forall rest, readPieces fd (piece :: rest) c buf = ended) ∧
        forall step n, ended = .ok step -> step.value.result = .ok n -> n < piece.len) ∨
      exists (c' : Cache σ) (buf' : Bytes) (events : List Event),
        forall rest, readPieces fd (piece :: rest) c buf =
          (readPieces fd rest c' buf').map (Step.resumed piece.len events) := by
  simp only [readPieces]
  cases c.access fd piece.index with
  | error e =>
      refine .inl ⟨_, fun _ => rfl, ?_⟩
      intro step n h
      cases h
  | ok accessed =>
      simp only [bind, Except.bind]
      rcases accessed.value with e | _ | slot
      · refine .inl ⟨_, fun _ => rfl, ?_⟩
        intro step n h hresult
        cases h
        cases hresult
      · refine .inl ⟨_, fun _ => rfl, ?_⟩
        intro step n h hresult
        cases h
        cases hresult
        exact hpos
      · dsimp only
        cases accessed.cache.list.block? slot with
        | none =>
            refine .inl ⟨_, fun _ => rfl, ?_⟩
            intro step n h hresult
            cases h
            cases hresult
        | some block =>
            dsimp only
            cases piece.copy block.data buf with
            | error e =>
                refine .inl ⟨_, fun _ => rfl, ?_⟩
                intro step n h
                cases h
            | ok patched =>
                dsimp only
                by_cases hshort : piece.available block.data < piece.len
                · simp only [if_pos hshort]
                  refine .inl ⟨_, fun _ => rfl, ?_⟩
                  intro step n h hresult
                  cases h
                  cases hresult
                  exact hshort
                · have hall : piece.available block.data = piece.len :=
                    Nat.le_antisymm (Nat.min_le_left _ _) (Nat.le_of_not_lt hshort)
                  refine .inr ⟨accessed.cache, patched, accessed.events, ?_⟩
                  intro rest
                  rw [if_neg hshort, hall]
                  cases readPieces fd rest accessed.cache patched <;> rfl

variable {fd : FileDescriptor} {pieces : List Piece} {c : Cache σ} {buf : Bytes}
  {first : Step σ (Reading (Except Error Nat))}

theorem readPieces_append_of_full (hpos : forall piece, piece ∈ pieces -> 0 < piece.len)
    (hfirst : readPieces fd pieces c buf = .ok first)
    (hfull : first.value.result = .ok (total Piece.len pieces)) (others : List Piece) :
    readPieces fd (pieces ++ others) c buf =
      (readPieces fd others first.cache first.value.buf).map
        (Step.resumed (total Piece.len pieces) first.events) := by
  induction pieces generalizing c buf first with
  | nil =>
      cases hfirst
      rw [List.nil_append]
      cases readPieces fd others c buf with
      | error e => rfl
      | ok step => exact congrArg Except.ok step.resumed_zero.symm
  | cons piece rest ih =>
      rcases readPieces_cons_cases fd (hpos piece List.mem_cons_self) c buf with
        ⟨ended, hended, hless⟩ | ⟨c', buf', events, hmore⟩
      · have hlt := hless first _ ((hended rest).symm.trans hfirst) hfull
        rw [total_cons] at hlt
        omega
      · rw [hmore] at hfirst
        rcases exists_of_map_eq_ok hfirst with ⟨more, hread, rfl⟩
        rcases exists_of_map_eq_ok hfull with ⟨n, hn, hsum⟩
        have hrest : more.value.result = .ok (total Piece.len rest) := by
          rw [hn, Nat.add_left_cancel (hsum.trans (total_cons Piece.len piece rest))]
        rw [List.cons_append, hmore,
          ih (fun other hother => hpos other (List.mem_cons_of_mem _ hother)) hread hrest]
        have hcache : (more.resumed piece.len events).cache = more.cache := rfl
        have hbuf : (more.resumed piece.len events).value.buf = more.value.buf := rfl
        rw [hcache, hbuf]
        cases readPieces fd others more.cache more.value.buf with
        | error e => rfl
        | ok step => exact congrArg Except.ok (step.resumed_resumed _ _ _ _)

theorem readPieces_append_of_stopped (hpos : forall piece, piece ∈ pieces -> 0 < piece.len)
    (hfirst : readPieces fd pieces c buf = .ok first)
    (hstopped : first.value.result ≠ .ok (total Piece.len pieces)) (others : List Piece) :
    readPieces fd (pieces ++ others) c buf = .ok first := by
  induction pieces generalizing c buf first with
  | nil =>
      cases hfirst
      exact absurd rfl hstopped
  | cons piece rest ih =>
      rcases readPieces_cons_cases fd (hpos piece List.mem_cons_self) c buf with
        ⟨ended, hended, -⟩ | ⟨c', buf', events, hmore⟩
      · rw [List.cons_append, hended, <- hended rest, hfirst]
      · rw [hmore] at hfirst
        rcases exists_of_map_eq_ok hfirst with ⟨more, hread, rfl⟩
        have hrest : more.value.result ≠ .ok (total Piece.len rest) := by
          intro hfull
          apply hstopped
          rw [Step.resumed, hfull]
          rfl
        rw [List.cons_append, hmore,
          ih (fun other hother => hpos other (List.mem_cons_of_mem _ hother)) hread hrest]
        rfl

/-!
# Whole reads
-/

abbrev TiledAt (config : Config) (offset : ByteOffset) (len : Nat) (pieces : List Piece) : Prop :=
  Tiled config.blockSize.toNat offset.number.toNat (offset.number.toNat + len)
    offset.number.toNat pieces

variable {config : Config} {s : Contents config} {offset : ByteOffset}

theorem exists_tiled (hvalid : config.Valid) (offset : ByteOffset) {len : Nat}
    (hfits : offset.number.toNat + len < UInt64.size) :
    exists pieces, TiledAt config offset len pieces := by
  rcases Span.ofRange_cases hvalid.blockSize_pos offset len with
    ⟨hlen, -⟩ | ⟨-, -, span, -, hoffset, hstop, hsize⟩ | ⟨-, hover, -⟩
  · rw [hlen]
    exact ⟨[], rfl⟩
  · have htiled := span.tiled_pieces
    rw [hoffset, hstop, hsize] at htiled
    exact ⟨span.pieces, htiled⟩
  · exact absurd hfits (Nat.not_lt_of_le hover)

theorem read_of_tiled (hvalid : config.Valid) (hconfig : c.config = config)
    (hfits : offset.number.toNat + buf.length < UInt64.size)
    (htiled : TiledAt config offset buf.length pieces)
    (hread : readPieces fd pieces c buf = .ok first) :
    exists events, c.read fd offset buf =
      .ok ⟨first.value, first.cache.booked first.value.result, events⟩ := by
  unfold read
  rw [hconfig]
  rcases Span.ofRange_cases hvalid.blockSize_pos offset buf.length with
    ⟨hlen, hrange⟩ | ⟨hpos, -, span, hrange, hoffset, hstop, hsize⟩ | ⟨-, hover, -⟩
  · have hnil : pieces = [] := htiled.unique (by rw [hlen]; rfl)
    rw [hnil] at hread
    cases hread
    rw [hrange]
    exact ⟨[], rfl⟩
  · have hspan := span.tiled_pieces
    rw [hoffset, hstop, hsize] at hspan
    rw [hrange]
    simp only [bind, Except.bind]
    rw [hspan.unique htiled, hread]
    rcases first with ⟨⟨result, patched⟩, cache, events⟩
    cases result with
    | error e => exact ⟨events, rfl⟩
    | ok copied => exact ⟨events ++ [.read fd offset buf.length copied], rfl⟩
  · exact absurd hfits (Nat.not_lt_of_le hover)

theorem read_recast_of_tiled (hvalid : config.Valid) (hconfig : c.config = config)
    (hfits : offset.number.toNat + buf.length < UInt64.size)
    (htiled : TiledAt config offset buf.length pieces)
    (hread : readPieces fd pieces c buf = .ok first) (n : Nat) :
    exists events, (c.recast id n).read fd offset buf =
      .ok ⟨first.value, (first.cache.recast id n).booked first.value.result, events⟩ := by
  have hrecast : readPieces fd pieces (c.recast id n) buf = .ok (first.recast id n) := by
    rw [readPieces_recast keepsFetches_id, hread]
    rfl
  have hkept : (c.recast id n).config = config := hconfig
  exact read_of_tiled hvalid hkept hfits htiled hrecast

/-!
# A read in two
-/

/--
A read in two parts. The second goes into the rest of the buffer, and is made only if the
first was given in full.
-/
def readInTwo (c : Cache σ) (fd : FileDescriptor) (offset : ByteOffset) (front back : Bytes) :
    Except Corruption (Step σ (Reading (Except Error Nat))) := do
  let first <- c.read fd offset front
  match first.value.result with
  | .error e => return ⟨⟨.error e, first.value.buf ++ back⟩, first.cache, first.events⟩
  | .ok n =>
      if n = front.length then
        let second <- first.cache.read fd ⟨offset.number + UInt64.ofNat front.length⟩ back
        let result := second.value.result.map fun copied => n + copied
        return ⟨⟨result, first.value.buf ++ second.value.buf⟩, second.cache,
          first.events ++ second.events⟩
      else
        return ⟨⟨.ok n, first.value.buf ++ back⟩, first.cache, first.events⟩

variable {front back : Bytes} {second : Step σ (Reading (Except Error Nat))}

theorem readInTwo_of_full (hfirst : c.read fd offset front = .ok first)
    (hfull : first.value.result = .ok front.length)
    (hsecond : first.cache.read fd ⟨offset.number + UInt64.ofNat front.length⟩ back = .ok second) :
    c.readInTwo fd offset front back =
      .ok ⟨⟨second.value.result.map fun copied => front.length + copied,
        first.value.buf ++ second.value.buf⟩, second.cache, first.events ++ second.events⟩ := by
  simp only [readInTwo, hfirst, bind, Except.bind, hfull, if_pos, hsecond]
  rfl

theorem readInTwo_of_stopped (hfirst : c.read fd offset front = .ok first)
    (hstopped : first.value.result ≠ .ok front.length) :
    c.readInTwo fd offset front back =
      .ok ⟨⟨first.value.result, first.value.buf ++ back⟩, first.cache, first.events⟩ := by
  simp only [readInTwo, hfirst, bind, Except.bind]
  cases hresult : first.value.result with
  | error e => rfl
  | ok n =>
      have hn : n ≠ front.length := by
        intro hn
        rw [hresult, hn] at hstopped
        exact hstopped rfl
      dsimp only
      rw [if_neg hn]
      rfl

section Parts

variable {others : List Piece} (hvalid : config.Valid) (hconfig : c.config = config)
  (hfits : offset.number.toNat + (front ++ back).length < UInt64.size)
  (hfront : TiledAt config offset front.length pieces)
  (hjoined : TiledAt config offset (front ++ back).length
    (pieces ++ others.map (Piece.shift front.length)))
  (hread : readPieces fd pieces c front = .ok first)

include hfront hread in
theorem readPieces_front (back : Bytes) :
    readPieces fd pieces c (front ++ back) = .ok (first.framed [] back) := by
  have hframed := readPieces_framed fd c [] back fun piece hpiece =>
    hfront.inside_length hpiece
  rw [hread] at hframed
  rw [<- Piece.map_shift_zero pieces]
  exact hframed

include hvalid hconfig hfits hfront hjoined hread in
theorem read_append_of_stopped (hstopped : first.value.result ≠ .ok front.length) :
    exists events, c.read fd offset (front ++ back) =
      .ok ⟨⟨first.value.result, first.value.buf ++ back⟩,
        first.cache.booked first.value.result, events⟩ := by
  rw [<- hfront.total_length] at hstopped
  have hall := readPieces_append_of_stopped
    (fun piece hpiece => hfront.len_pos hvalid.blockSize_pos hpiece)
    (readPieces_front hfront hread back) hstopped (others.map (Piece.shift front.length))
  exact read_of_tiled hvalid hconfig hfits hjoined hall

include hvalid hconfig hfits hfront hjoined hread in
theorem read_append_of_full (hfull : first.value.result = .ok front.length)
    (hbuf : first.value.buf.length = front.length)
    (hinside : forall piece, piece ∈ others -> piece.dest + piece.len <= back.length)
    (hsecond : readPieces fd others first.cache back = .ok second) :
    exists events, c.read fd offset (front ++ back) =
      .ok ⟨⟨second.value.result.map fun copied => front.length + copied,
          first.value.buf ++ second.value.buf⟩,
        second.cache.booked (second.value.result.map fun copied => front.length + copied),
        events⟩ := by
  rw [<- hfront.total_length] at hfull
  have hall := readPieces_append_of_full
    (fun piece hpiece => hfront.len_pos hvalid.blockSize_pos hpiece)
    (readPieces_front hfront hread back) hfull (others.map (Piece.shift front.length))
  have hframed := readPieces_framed fd first.cache first.value.buf [] hinside
  rw [hbuf, hsecond, List.append_nil] at hframed
  have hcache : (first.framed [] back).cache = first.cache := rfl
  have hpatched : (first.framed [] back).value.buf = first.value.buf ++ back := rfl
  rw [hcache, hpatched, hframed, hfront.total_length] at hall
  have hdone := read_of_tiled hvalid hconfig hfits hjoined hall
  simp only [Step.resumed, Step.framed, List.append_nil] at hdone
  exact hdone

end Parts

theorem exists_tiled_parts (hvalid : config.Valid)
    (hmid : config.blockSize.toNat ∣ offset.number.toNat + front.length)
    {offset' : ByteOffset} (hoffset' : offset'.number.toNat = offset.number.toNat + front.length)
    (hstop : offset.number.toNat + front.length + back.length < UInt64.size) :
    exists pieces others,
      TiledAt config offset front.length pieces ∧ TiledAt config offset' back.length others ∧
        TiledAt config offset (front ++ back).length
          (pieces ++ others.map (Piece.shift front.length)) := by
  have hfrontFits : offset.number.toNat + front.length < UInt64.size :=
    Nat.lt_of_le_of_lt (Nat.le_add_right _ _) hstop
  have hbackFits : offset'.number.toNat + back.length < UInt64.size := hoffset'.symm ▸ hstop
  rcases exists_tiled hvalid offset hfrontFits with ⟨pieces, hfront⟩
  rcases exists_tiled hvalid offset' hbackFits with ⟨others, hback⟩
  refine ⟨pieces, others, hfront, hback, ?_⟩
  unfold TiledAt at hback
  rw [hoffset'] at hback
  rw [List.length_append]
  exact hfront.join hvalid.blockSize_pos hmid hback

/-- The second part of a read in two was made, and has failed. -/
def SecondFails (front : Bytes) (first parts : Step σ (Reading (Except Error Nat))) : Prop :=
  first.value.result = .ok front.length ∧ exists e, parts.value.result = .error e

theorem readInTwo_completes (hvalid : config.Valid) (h : Coherent config c s) (fd : FileDescriptor)
    (hmid : config.blockSize.toNat ∣ offset.number.toNat + front.length)
    (hstop : offset.number.toNat + front.length + back.length < UInt64.size) :
    Completes (c.read fd offset front) fun first =>
      Completes (c.read fd offset (front ++ back)) fun whole =>
        Completes (c.readInTwo fd offset front back) fun parts =>
          whole.value = parts.value ∧
            (¬ SecondFails front first parts -> parts.cache = whole.cache) ∧
            (SecondFails front first parts ->
              parts.cache = whole.cache.recast id front.length) := by
  have hfrontFits : offset.number.toNat + front.length < UInt64.size :=
    Nat.lt_of_le_of_lt (Nat.le_add_right _ _) hstop
  have hfits : offset.number.toNat + (front ++ back).length < UInt64.size := by
    rw [List.length_append, <- Nat.add_assoc]
    exact hstop
  let offset' : ByteOffset := ⟨offset.number + UInt64.ofNat front.length⟩
  have hoffset' : offset'.number.toNat = offset.number.toNat + front.length :=
    Word.toNat_add_ofNat hfrontFits
  rcases exists_tiled_parts hvalid hmid hoffset' hstop with
    ⟨pieces, others, hfront, hback, hjoined⟩
  have hinside : forall piece, piece ∈ pieces -> piece.dest + piece.len <= front.length :=
    fun piece hpiece => hfront.inside_length hpiece
  rcases readPieces_completes hvalid h hinside with ⟨first, hread, s', hpieces, h'⟩
  rcases read_of_tiled hvalid h.config_eq hfrontFits hfront hread with ⟨firstEvents, hfirst⟩
  by_cases hfull : first.value.result = .ok front.length
  · have hothersInside : forall piece, piece ∈ others -> piece.dest + piece.len <= back.length :=
      fun piece hpiece => hback.inside_length hpiece
    rcases readPieces_completes hvalid h' hothersInside with ⟨second, hothers, -⟩
    have hbooked : first.cache.booked first.value.result =
        first.cache.recast id front.length := by
      rw [hfull]
      rfl
    rcases read_recast_of_tiled hvalid h'.config_eq (hoffset'.symm ▸ hstop) hback hothers
      front.length with ⟨secondEvents, hsecond⟩
    rw [<- hbooked] at hsecond
    rcases read_append_of_full hvalid h.config_eq hfits hfront hjoined hread hfull
      (hpieces.length_buf hinside) hothersInside hothers with ⟨wholeEvents, hwhole⟩
    refine ⟨_, hfirst, _, hwhole, _, readInTwo_of_full hfirst hfull hsecond, rfl, ?_⟩
    rcases second with ⟨⟨result, patched⟩, cache, events⟩
    cases result with
    | error e => exact ⟨fun hfine => absurd ⟨hfull, e, rfl⟩ hfine, fun _ => rfl⟩
    | ok n =>
        constructor
        · intro hfine
          exact recast_recast front.length n cache
        · intro hfails
          rcases hfails with ⟨-, e, he⟩
          cases he
  · rcases read_append_of_stopped hvalid h.config_eq hfits hfront hjoined hread hfull with
      ⟨wholeEvents, hwhole⟩
    exact ⟨_, hfirst, _, hwhole, _, readInTwo_of_stopped hfirst hfull, rfl, fun _ => rfl,
      fun hfails => absurd hfails.1 hfull⟩

theorem readInTwo_unrecorded (c : Cache (Recorded σ)) (fd : FileDescriptor) (offset : ByteOffset)
    (front back : Bytes) :
    c.unrecorded.readInTwo fd offset front back =
      (c.readInTwo fd offset front back).map Step.unrecorded := by
  rw [readInTwo, readInTwo, read_unrecorded]
  cases c.read fd offset front with
  | error e => rfl
  | ok first =>
      rcases first with ⟨⟨result, patched⟩, cache, events⟩
      cases result with
      | error e => rfl
      | ok n =>
          simp only [bind, Except.bind, Except.map, Step.unrecorded]
          by_cases hn : n = front.length
          · rw [if_pos hn, if_pos hn, read_unrecorded]
            cases cache.read fd _ back <;> rfl
          · rw [if_neg hn, if_neg hn]
            rfl

/--
A read that is split where a block ends leaves the same cache, source and record of fetches
as one read, and answers and fills the buffer alike. Only if the second part fails have the
bytes of the first been counted in between.
-/
theorem read_eq_readInTwo {c : Cache σ} (hreachable : Reachable config c) (fd : FileDescriptor)
    (offset : ByteOffset) (front back : Bytes)
    (hmid : config.blockSize.toNat ∣ offset.number.toNat + front.length)
    (hstop : offset.number.toNat + front.length + back.length < UInt64.size) :
    Completes (c.recorded.read fd offset front) fun first =>
      Completes (c.recorded.read fd offset (front ++ back)) fun whole =>
        Completes (c.recorded.readInTwo fd offset front back) fun parts =>
          c.read fd offset (front ++ back) = .ok whole.unrecorded ∧
            c.readInTwo fd offset front back = .ok parts.unrecorded ∧
            whole.value = parts.value ∧
            (¬ SecondFails front first parts -> parts.cache = whole.cache) ∧
            (SecondFails front first parts -> parts.cache =
              { whole.cache with
                stats := { whole.cache.stats with
                  bytesRead := whole.cache.stats.bytesRead + front.length } }) := by
  rcases hreachable.coherent with ⟨hvalid, s, h⟩
  rcases readInTwo_completes hvalid h.recorded fd hmid hstop with
    ⟨first, hfirst, whole, hwhole, parts, hparts, hvalue, hsame⟩
  refine ⟨first, hfirst, whole, hwhole, parts, hparts, read_of_recorded hwhole, ?_, hvalue, hsame⟩
  rw [<- unrecorded_recorded c, readInTwo_unrecorded, hparts]
  rfl

def lostBlock : MemoryFiles :=
  eightBytes.addFault ⟨⟨5⟩, some ⟨3⟩, none, .fail (.fetch ⟨5⟩ ⟨3⟩ "lost")⟩

theorem read_eq_readInTwo_lost_block :
    exists c : Cache MemoryFiles, Reachable threeBlocks c ∧ threeBlocks.blockSize.toNat ∣ 1 + 3 ∧
      Completes (c.recorded.read ⟨5⟩ ⟨1⟩ [0, 0, 0, 0, 0, 0]) fun whole =>
        Completes (c.recorded.readInTwo ⟨5⟩ ⟨1⟩ [0, 0, 0] [0, 0, 0]) fun parts =>
          whole.value = ⟨.error (.fetch ⟨5⟩ ⟨3⟩ "lost"), [2, 3, 4, 5, 6, 0]⟩ ∧
            parts.value = whole.value ∧ parts.cache.list = whole.cache.list ∧
            parts.cache.source.calls.length = whole.cache.source.calls.length ∧
            parts.cache.stats.bytesRead = whole.cache.stats.bytesRead + 3 := by
  have hrun : Completes (create threeBlocks lostBlock) fun created =>
      Completes (created.cache.perform (.read ⟨5⟩ ⟨0⟩ [0])) fun begun =>
        Completes (begun.cache.recorded.read ⟨5⟩ ⟨1⟩ [0, 0, 0]) fun first =>
          Completes (begun.cache.recorded.read ⟨5⟩ ⟨1⟩ [0, 0, 0, 0, 0, 0]) fun whole =>
            first.value.result = .ok 3 ∧
              whole.value = ⟨.error (.fetch ⟨5⟩ ⟨3⟩ "lost"), [2, 3, 4, 5, 6, 0]⟩ :=
    ⟨_, rfl, _, rfl, _, rfl, _, rfl, rfl, rfl⟩
  rcases hrun with ⟨created, hcreate, begun, hbegun, first, hfirst, whole, hwhole, hfull, hlost⟩
  have hreachable := (Reachable.created hcreate).performed hbegun
  have hmid : threeBlocks.blockSize.toNat ∣ 1 + 3 := by decide
  have hsplit := read_eq_readInTwo hreachable ⟨5⟩ ⟨1⟩ [0, 0, 0] [0, 0, 0] hmid (by decide)
  rcases (hsplit.of_eq hfirst).of_eq hwhole with ⟨parts, hparts, -, -, hvalue, -, hfails⟩
  have hfailed : SecondFails [0, 0, 0] first parts := by
    refine ⟨hfull, .fetch ⟨5⟩ ⟨3⟩ "lost", ?_⟩
    rw [<- hvalue, hlost]
  have hcache := hfails hfailed
  refine ⟨begun.cache, hreachable, hmid, whole, hwhole, parts, hparts, hlost, hvalue.symm, ?_⟩
  rw [hcache]
  exact ⟨rfl, rfl, rfl⟩

end Cache
end BlockCache
