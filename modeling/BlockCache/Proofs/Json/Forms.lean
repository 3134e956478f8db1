import BlockCache.Proofs.Json.RoundTrips

/-!
# Forms of records

Which objects and arrays are read as a configuration or as the sizes of the segments. The two
shapes differ only in what they do with members that are no fields: a configuration refuses
them, sizes let them pass.
-/

namespace BlockCache
namespace Json

/-- A text with only one object, which has the given members. -/
abbrev ObjectText (ms : List Member) (text : String) : Prop :=
  BracketText .curly ms text.toList

abbrev ArrayText (elements : List (List Char)) (text : String) : Prop :=
  BracketText .square elements text.toList

section Layouts

variable {shape : Shape} {ns : List Int} {ms : List Member}

theorem layout_iff_of_strict (hstrict : shape.strict = true) (hholds : shape.Holds ns) :
    Layout shape ns ms <-> ms.Perm (shape.members ns) := by
  constructor
  · intro h
    have hfields := h.fields
    rwa [List.filter_eq_self.mpr (h.known hstrict)] at hfields
  · exact Layout.of_perm hholds

theorem Layout.count_le_one (h : Layout shape ns ms) (hshape : shape.Exact) {name : String}
    (hname : name ∈ shape.fieldNames) : (ms.map Member.name).count (some name) <= 1 := by
  have hfields : (ms.map Member.name).count (some name) =
      ((ms.filter shape.isField).map Member.name).count (some name) := by
    rw [List.count_eq_countP, List.countP_map, List.count_eq_countP, List.countP_map,
      List.countP_filter]
    apply List.countP_congr
    intro m _
    have hfield : m.name = some name -> shape.isField m = true := by
      intro hm
      rw [Shape.isField, hm]
      exact decide_eq_true hname
    simp only [Function.comp, Bool.and_eq_true, beq_iff_eq]
    exact ⟨fun hm => ⟨hm, hfield hm⟩, And.left⟩
  rw [hfields, (h.fields.map Member.name).count_eq]
  exact List.nodup_iff_count_le_one.mp (nodup_names_members hshape h.holds) (some name)

end Layouts

end Json

open Json

def Config.members (config : Config) : List Member :=
  Config.shape.members config.values

def SegmentSizes.members (sizes : SegmentSizes) : List Member :=
  SegmentSizes.shape.members sizes.values

section Objects

variable {ms : List Member} {text : String} {config : Config} {sizes : SegmentSizes}

theorem Config.ofJson_object_iff (h : ObjectText ms text) :
    Config.ofJson text = .ok config <-> ms.Perm config.members :=
  (Config.encodes.object_iff h).trans (layout_iff_of_strict rfl config.holds_values)

theorem SegmentSizes.ofJson_object_iff (h : ObjectText ms text) :
    SegmentSizes.ofJson text = .ok sizes <->
      sizes.Fits ∧ (forall m, m ∈ ms -> m.name ≠ none) ∧
        (ms.filter SegmentSizes.shape.isField).Perm sizes.members := by
  apply (SegmentSizes.encodes.object_iff h).trans
  constructor
  · intro hlayout
    exact ⟨holds_values_iff.mp hlayout.holds, hlayout.named, hlayout.fields⟩
  · intro ⟨hfits, hnamed, hfields⟩
    have hlenient : SegmentSizes.shape.strict ≠ true := by decide
    exact ⟨holds_values_iff.mpr hfits, hnamed, fun hstrict => absurd hstrict hlenient, hfields⟩

theorem Config.mem_fieldNames_of_ofJson (h : ObjectText ms text)
    (hread : Config.ofJson text = .ok config) {m : Member} (hm : m ∈ ms) :
    m.name ∈ Config.shape.fieldNames.map some := by
  have hperm := (Config.ofJson_object_iff h).mp hread
  have hnames := map_name_zipWith config.holds_values
  rw [Shape.fieldNames, <- hnames]
  exact List.mem_map_of_mem (hperm.mem_iff.mp hm)

end Objects

/--
A configuration is read from an object with its four members in any order, and from the array
of its values; an object with another member is refused. Sizes are read from an object with
their three members in any order between any others. No field may be there twice.
-/
theorem record_forms_read :
    (forall (config : Config) (ms : List Member) (text : String),
        ObjectText ms text -> ms.Perm config.members -> Config.ofJson text = .ok config) ∧
      (forall (config : Config) (text : String),
        ArrayText (config.values.map writeInteger) text -> Config.ofJson text = .ok config) ∧
      (forall (ms : List Member) (text : String), ObjectText ms text ->
        (exists m, m ∈ ms ∧ m.name ∉ Config.shape.fieldNames.map some) ->
        forall config, Config.ofJson text ≠ .ok config) ∧
      (forall (sizes : SegmentSizes) (ms : List Member) (text : String), sizes.Fits ->
        ObjectText ms text -> (forall m, m ∈ ms -> m.name ≠ none) ->
        (ms.filter SegmentSizes.shape.isField).Perm sizes.members ->
        SegmentSizes.ofJson text = .ok sizes) ∧
      (forall (ms : List Member) (text : String) (name : String), ObjectText ms text ->
        2 <= (ms.map Member.name).count (some name) ->
        (name ∈ Config.shape.fieldNames -> forall config, Config.ofJson text ≠ .ok config) ∧
          (name ∈ SegmentSizes.shape.fieldNames ->
            forall sizes, SegmentSizes.ofJson text ≠ .ok sizes)) := by
  refine ⟨?_, ?_, ?_, ?_, ?_⟩
  · intro config ms text htext hperm
    exact (Config.ofJson_object_iff htext).mpr hperm
  · intro config text htext
    exact Config.encodes.read_array config.holds_values htext
  · intro ms text htext ⟨m, hm, hother⟩ config hread
    exact hother (Config.mem_fieldNames_of_ofJson htext hread hm)
  · intro sizes ms text hfits htext hnamed hfields
    exact (SegmentSizes.ofJson_object_iff htext).mpr ⟨hfits, hnamed, hfields⟩
  · intro ms text name htext htwice
    constructor
    · intro hname config hread
      have hlayout := (Config.encodes.object_iff htext).mp hread
      have hcount := hlayout.count_le_one Config.encodes.exact hname
      omega
    · intro hname sizes hread
      have hlayout := (SegmentSizes.encodes.object_iff htext).mp hread
      have hcount := hlayout.count_le_one SegmentSizes.encodes.exact hname
      omega

def shuffledSizes : List Member :=
  [.ofInteger "old" 3, ⟨some "x", ['[', 'n', 'u', 'l', 'l', ']']⟩, .ofInteger "new" 1,
    ⟨some "x", ['t', 'r', 'u', 'e']⟩, .ofInteger "middle" 2]

def shuffledText : String :=
  "\x7b \"old\": 3, \"x\": [null], \"new\": 1, \"x\": true, \"middle\": 2\x7d"

theorem objectText_shuffledSizes : ObjectText shuffledSizes shuffledText := by
  have hblank : Blank [' '] := by decide
  have hmember : forall (name : String) (v : List Char), name.toList.all isPlain = true ->
      Text .value v -> Text (.item .curly ⟨some name, v⟩) _ := fun name v hname hv =>
    .member hblank (.named (spells_self hname)) blank_nil hblank hv blank_nil
  have hnumber : forall n, Text .value (writeInteger n) := fun n =>
    .number (numberText_writeInteger n)
  have harray : Text .value ['[', 'n', 'u', 'l', 'l', ']'] :=
    @Text.bracketed .square _ _ (.last (.element blank_nil .null blank_nil))
  have hitems : Text (.items .curly shuffledSizes) _ :=
    .more (hmember "old" _ (by decide) (hnumber 3)) (.more (hmember "x" _ (by decide) harray)
      (.more (hmember "new" _ (by decide) (hnumber 1)) (.more (hmember "x" _ (by decide) .yes)
        (.last (hmember "middle" _ (by decide) (hnumber 2))))))
  exact BracketText.mk blank_nil hitems blank_nil

theorem record_forms_read_shuffled :
    ObjectText shuffledSizes shuffledText ∧ SegmentSizes.ofJson shuffledText = .ok ⟨1, 2, 3⟩ := by
  rcases record_forms_read with ⟨-, -, -, hsizes, -⟩
  constructor
  · exact objectText_shuffledSizes
  · exact hsizes ⟨1, 2, 3⟩ shuffledSizes shuffledText (by decide) objectText_shuffledSizes
      (by decide) (by decide +kernel)

end BlockCache
