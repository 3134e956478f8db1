import BlockCache.Proofs.Json.Records

/-!
# Round trips

What is written is read back. The texts written are texts of values without blanks, and any
text that is read, however it was laid out, is rewritten to such a text once and for all.
-/

namespace BlockCache

namespace Json

def Compact (cs : List Char) : Prop :=
  forall c, c ∈ cs -> isBlank c = false

instance (cs : List Char) : Decidable (Compact cs) :=
  List.decidableBAll (fun c => isBlank c = false) cs

/--
Values are written compactly and read back. A value that was read from any text is written to
a text that gives the same value and is written the same again.
-/
structure RoundTrips {α : Type} (Writable : α -> Prop) (toJson : α -> String)
    (ofJson : String -> Except Failure α) : Prop where
  written : forall a, Text .value (toJson a).toList ∧ Compact (toJson a).toList
  read_written : forall a, Writable a -> ofJson (toJson a) = .ok a
  rewritten : forall text a, ofJson text = .ok a ->
    Completes (ofJson (toJson a)) fun b => b = a ∧ toJson b = toJson a

theorem RoundTrips.of_read_written {α : Type} {Writable : α -> Prop} {toJson : α -> String}
    {ofJson : String -> Except Failure α}
    (written : forall a, Text .value (toJson a).toList ∧ Compact (toJson a).toList)
    (read_written : forall a, Writable a -> ofJson (toJson a) = .ok a)
    (accepted : forall text a, ofJson text = .ok a -> Writable a) :
    RoundTrips Writable toJson ofJson :=
  { written := written
    read_written := read_written
    rewritten := fun text a htext =>
      ⟨a, read_written a (accepted text a htext), rfl, rfl⟩ }

theorem RoundTrips.mono {α : Type} {Writable Writable' : α -> Prop} {toJson : α -> String}
    {ofJson : String -> Except Failure α} (h : RoundTrips Writable toJson ofJson)
    (hwritable : forall a, Writable' a -> Writable a) : RoundTrips Writable' toJson ofJson :=
  { h with read_written := fun a ha => h.read_written a (hwritable a ha) }

theorem compact_append {cs ds : List Char} (hcs : Compact cs) (hds : Compact ds) :
    Compact (cs ++ ds) :=
  List.forall_mem_append.mpr ⟨hcs, hds⟩

theorem compact_cons {c : Char} {cs : List Char} (hc : isBlank c = false) (hcs : Compact cs) :
    Compact (c :: cs) :=
  List.forall_mem_cons.mpr ⟨hc, hcs⟩

theorem compact_nil : Compact [] := by
  intro c hc
  cases hc

theorem compact_writeInteger (n : Int) : Compact (writeInteger n) := by
  have hdigits : Compact (Nat.toDigits 10 n.natAbs) := fun c hc =>
    isBlank_of_isStart (isStart_of_isDigit ((wholeText_toDigits n.natAbs).isDigit c hc))
  unfold writeInteger
  split
  · exact compact_cons rfl hdigits
  · exact hdigits

theorem compact_writeMember {name : String} (hname : Compact name.toList) (n : Int) :
    Compact (writeMember name n) :=
  compact_cons rfl (compact_append hname
    (compact_cons rfl (compact_cons rfl (compact_writeInteger n))))

theorem compact_intercalate {texts : List (List Char)} (h : forall t, t ∈ texts -> Compact t) :
    Compact ([','].intercalate texts) := by
  induction texts with
  | nil => exact compact_nil
  | cons t texts ih =>
      rcases List.forall_mem_cons.mp h with ⟨ht, htexts⟩
      cases texts with
      | nil => exact compact_append ht compact_nil
      | cons next texts => exact compact_append ht (compact_cons rfl (ih htexts))

theorem compact_writeObject {members : List (String × Int)}
    (hnames : forall m, m ∈ members -> Compact m.1.toList) : Compact (writeObject members) := by
  have hmembers : Compact ([','].intercalate (members.map fun m => writeMember m.1 m.2)) := by
    apply compact_intercalate
    intro t ht
    rcases List.mem_map.mp ht with ⟨m, hm, rfl⟩
    exact compact_writeMember (hnames m hm) m.2
  exact compact_cons rfl (compact_append hmembers (compact_cons rfl compact_nil))

/-!
# Integers and records
-/

section Codecs

variable {α : Type}

theorem integer_read_written {range : IntRange} {ofInt : Int -> α} {n : Int}
    (hrange : range.Exact) (hn : range.Holds n) :
    readWhole (mapRead ofInt (readInteger range)) (String.ofList (writeInteger n)) =
      .ok (ofInt n) := by
  have hvalue : Text .value (writeInteger n) := .number (numberText_writeInteger n)
  have hskip : skipBlank (writeInteger n) = writeInteger n ++ [] := by
    simpa using skipBlank_value blank_nil hvalue []
  have hread : Reads (readInteger range (writeInteger n)) n [] :=
    readInteger_writeInteger hrange hn hskip rfl
  rw [readWhole_iff, String.toList_ofList]
  exact ⟨[], mapRead_iff.mpr ⟨n, hread, rfl⟩, blank_nil⟩

theorem integers_round_trip {range : IntRange} {ofInt : Int -> α} {toInt : α -> Int}
    (hrange : range.Exact) (hholds : forall a, range.Holds (toInt a))
    (hinverse : forall a, ofInt (toInt a) = a) :
    RoundTrips (fun _ => True) (fun a => String.ofList (writeInteger (toInt a)))
      (readWhole (mapRead ofInt (readInteger range))) := by
  apply RoundTrips.of_read_written
  · intro a
    rw [String.toList_ofList]
    exact ⟨.number (numberText_writeInteger _), compact_writeInteger _⟩
  · intro a _
    rw [integer_read_written hrange (hholds a), hinverse]
  · exact fun _ _ _ => trivial

theorem Encodes.round_trip {shape : Shape} {ofValues : List Int -> α} {values : α -> List Int}
    (h : Encodes shape ofValues values)
    (hnames : forall name, name ∈ shape.fieldNames -> Compact name.toList) :
    RoundTrips (fun a => shape.Holds (values a))
      (fun a => String.ofList (writeObject (shape.fieldNames.zip (values a))))
      (readWhole (mapRead ofValues (readRecord shape))) := by
  apply RoundTrips.of_read_written
  · intro a
    rw [String.toList_ofList]
    constructor
    · exact text_writeObject (h.plain_written a)
    · exact compact_writeObject fun m hm => hnames m.1 (List.of_mem_zip hm).1
  · intro a hholds
    exact h.read_written hholds
  · intro text a hread
    exact h.holds_of_read hread

end Codecs

end Json

/-!
# Words

A word is what is read from its own number.
-/

section Words

open Json

theorem toNat_ofNat_of_holds {n : Int} (h : IntRange.size.Holds n) :
    ((UInt64.ofNat n.toNat).toNat : Int) = n := by
  rcases h with ⟨hlow, hhigh⟩
  simp only [IntRange.size] at hlow hhigh
  rw [UInt64.toNat_ofNat_of_lt' (by simp only [UInt64.size]; omega), Int.toNat_of_nonneg hlow]

theorem toNat_ofNat_of_holds_half {n : Int} (h : IntRange.halfWord.Holds n) :
    ((UInt32.ofNat n.toNat).toNat : Int) = n := by
  rcases h with ⟨hlow, hhigh⟩
  simp only [IntRange.halfWord] at hlow hhigh
  rw [UInt32.toNat_ofNat_of_lt' (by simp only [UInt32.size]; omega), Int.toNat_of_nonneg hlow]

theorem holds_toNat (x : UInt64) : IntRange.size.Holds x.toNat := by
  have hlt := x.toNat_lt
  constructor <;> simp only [IntRange.size] <;> omega

theorem holds_toNat_half (x : UInt32) : IntRange.halfWord.Holds x.toNat := by
  have hlt := x.toNat_lt
  constructor <;> simp only [IntRange.halfWord] <;> omega

end Words

/-!
# Records of the cache
-/

namespace Config

theorem encodes : Json.Encodes shape ofValues values :=
  { exact := ⟨by decide, by decide⟩
    plain := by decide +kernel
    ofValues_values := by
      intro config
      simp only [ofValues, values, List.getD_cons_zero, List.getD_cons_succ, Int.toNat_natCast,
        UInt64.ofNat_toNat, UInt32.ofNat_toNat]
    values_ofValues := by
      intro ns hholds
      rcases hholds with _ | ⟨hold, _ | ⟨hsize, _ | ⟨hnew, _ | ⟨hall, ⟨⟩⟩⟩⟩⟩
      simp only [ofValues, values, List.getD_cons_zero, List.getD_cons_succ,
        toNat_ofNat_of_holds hold, toNat_ofNat_of_holds_half hsize, toNat_ofNat_of_holds hnew,
        toNat_ofNat_of_holds hall] }

theorem holds_values (config : Config) : shape.Holds config.values :=
  .cons (holds_toNat _) (.cons (holds_toNat_half _)
    (.cons (holds_toNat _) (.cons (holds_toNat _) .nil)))

theorem round_trip : Json.RoundTrips (fun _ => True) toJson ofJson :=
  (encodes.round_trip (by decide +kernel)).mono fun config _ => config.holds_values

end Config

namespace SegmentSizes

def Fits (sizes : SegmentSizes) : Prop :=
  sizes.new < UInt64.size ∧ sizes.middle < UInt64.size ∧ sizes.old < UInt64.size

instance (sizes : SegmentSizes) : Decidable sizes.Fits :=
  inferInstanceAs (Decidable (_ ∧ _))

theorem encodes : Json.Encodes shape ofValues values :=
  { exact := ⟨by decide, by decide⟩
    plain := by decide +kernel
    ofValues_values := fun _ => rfl
    values_ofValues := by
      intro ns hholds
      rcases hholds with _ | ⟨hnew, _ | ⟨hmiddle, _ | ⟨hold, ⟨⟩⟩⟩⟩
      simp only [ofValues, values, List.getD_cons_zero, List.getD_cons_succ,
        Int.toNat_of_nonneg hnew.1, Int.toNat_of_nonneg hmiddle.1, Int.toNat_of_nonneg hold.1] }

theorem holds_values_iff {sizes : SegmentSizes} : shape.Holds sizes.values <-> sizes.Fits := by
  have hsize : forall n : Nat, Json.IntRange.size.Holds n <-> n < UInt64.size := by
    intro n
    simp only [Json.IntRange.Holds, Json.IntRange.size, UInt64.size]
    omega
  constructor
  · intro hholds
    rcases hholds with _ | ⟨hnew, _ | ⟨hmiddle, _ | ⟨hold, _⟩⟩⟩
    exact ⟨(hsize _).mp hnew, (hsize _).mp hmiddle, (hsize _).mp hold⟩
  · intro ⟨hnew, hmiddle, hold⟩
    exact .cons ((hsize _).mpr hnew) (.cons ((hsize _).mpr hmiddle)
      (.cons ((hsize _).mpr hold) .nil))

theorem round_trip : Json.RoundTrips Fits toJson ofJson :=
  (encodes.round_trip (by decide +kernel)).mono fun _ => holds_values_iff.mpr

end SegmentSizes

/-!
# Segments
-/

namespace Segment

theorem ofName_name (segment : Segment) : ofName segment.name = .ok segment := by
  cases segment <;> rfl

theorem spells_name (segment : Segment) : Json.Spells segment.name.toList segment.name.toList := by
  apply Json.spells_self
  cases segment <;> decide +kernel

theorem compact_name (segment : Segment) : Json.Compact segment.name.toList := by
  cases segment <;> decide +kernel

theorem ofJson_toJson (segment : Segment) : ofJson segment.toJson = .ok segment := by
  have hname : Json.Reads (Json.readString (segment.name.toList ++ ['"'])) segment.name.toList [] :=
    segment.spells_name.reads []
  have hquote : Json.skipBlank ('"' :: (segment.name.toList ++ ['"'])) =
      '"' :: (segment.name.toList ++ ['"']) := Json.skipBlank_cons (by decide) _
  have hread : Json.Reads (read ('"' :: (segment.name.toList ++ ['"']))) segment [] := by
    unfold read
    rw [Json.nextChar_eq hquote]
    apply Json.Reads.bind hname
    intro _
    dsimp only
    rw [String.ofList_toList, ofName_name]
    exact Json.reads_ok_iff.mpr ⟨rfl, rfl⟩
  apply Json.readWhole_iff.mpr
  rw [toJson, String.toList_ofList]
  exact ⟨[], hread, Json.blank_nil⟩

theorem round_trip : Json.RoundTrips (fun _ => True) toJson ofJson := by
  apply Json.RoundTrips.of_read_written
  · intro segment
    rw [toJson, String.toList_ofList]
    constructor
    · exact .string segment.spells_name.stringText
    · exact Json.compact_cons rfl
        (Json.compact_append segment.compact_name (Json.compact_cons rfl Json.compact_nil))
  · exact fun segment _ => segment.ofJson_toJson
  · exact fun _ _ _ => trivial

end Segment

/-!
# Identifiers
-/

theorem FileDescriptor.round_trip : Json.RoundTrips (fun _ => True) toJson ofJson := by
  apply Json.integers_round_trip (by decide)
  · intro fd
    have hlow := fd.number.le_toInt
    have hhigh := fd.number.toInt_lt
    constructor <;> simp only [Json.IntRange.signedHalfWord] <;> omega
  · intro fd
    rw [Int32.ofInt_toInt]

theorem BlockIndex.round_trip : Json.RoundTrips (fun _ => True) toJson ofJson := by
  apply Json.integers_round_trip (by decide)
  · exact fun index => holds_toNat index.number
  · intro index
    rw [Int.toNat_natCast, UInt64.ofNat_toNat]

theorem ByteOffset.round_trip : Json.RoundTrips (fun _ => True) toJson ofJson := by
  apply Json.integers_round_trip (by decide)
  · exact fun offset => holds_toNat offset.number
  · intro offset
    rw [Int.toNat_natCast, UInt64.ofNat_toNat]

/-- Every public type goes through its JSON form and back. -/
theorem json_round_trips :
    Json.RoundTrips (fun _ => True) Config.toJson Config.ofJson ∧
      Json.RoundTrips SegmentSizes.Fits SegmentSizes.toJson SegmentSizes.ofJson ∧
      Json.RoundTrips (fun _ => True) Segment.toJson Segment.ofJson ∧
      Json.RoundTrips (fun _ => True) FileDescriptor.toJson FileDescriptor.ofJson ∧
      Json.RoundTrips (fun _ => True) BlockIndex.toJson BlockIndex.ofJson ∧
      Json.RoundTrips (fun _ => True) ByteOffset.toJson ByteOffset.ofJson :=
  ⟨Config.round_trip, SegmentSizes.round_trip, Segment.round_trip, FileDescriptor.round_trip,
    BlockIndex.round_trip, ByteOffset.round_trip⟩

end BlockCache
