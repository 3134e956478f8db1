import BlockCache.Proofs.Json.Members

/-!
# Layouts of records

The members of an object make up a record exactly if those that are fields are its fields, in
any order, and the others may be passed over. While they are read, the values read so far and
the members that are still to come make up the same record.
-/

namespace BlockCache
namespace Json

/--
The record with the given values is laid out in the members: its fields in any order, and
other members with any names, if the shape lets them pass.
-/
structure Layout (shape : Shape) (ns : List Int) (ms : List Member) : Prop where
  holds : shape.Holds ns
  named : forall m, m ∈ ms -> m.name ≠ none
  known : shape.strict = true -> forall m, m ∈ ms -> shape.isField m = true
  fields : (ms.filter shape.isField).Perm (shape.members ns)

/-- The values read so far are in the ranges of their fields. -/
def Within (fields : List Field) (values : FieldValues) : Prop :=
  List.Forall₂ (fun field value => forall n, value = some n -> field.range.Holds n) fields values

theorem within_none (fields : List Field) : Within fields (fields.map fun _ => none) := by
  induction fields with
  | nil => exact .nil
  | cons field fields ih =>
      apply List.Forall₂.cons ?_ ih
      intro n hn
      cases hn

theorem Within.set {fields : List Field} {values : FieldValues} {i : Nat} {field : Field} {n : Int}
    (h : Within fields values) (hfield : fields[i]? = some field) (hn : field.range.Holds n) :
    Within fields (values.set i (some n)) := by
  induction h generalizing i with
  | nil => cases hfield
  | @cons first value fields values hvalue hvalues ih =>
      cases i with
      | zero =>
          cases hfield
          apply List.Forall₂.cons ?_ hvalues
          intro m hm
          cases hm
          exact hn
      | succ i => exact .cons hvalue (ih hfield)

theorem Within.complete_iff {fields : List Field} {values : FieldValues} {ns : List Int}
    (h : Within fields values) : complete fields values = .ok ns <-> values = ns.map some := by
  induction h generalizing ns with
  | nil =>
      constructor
      · intro hcomplete
        cases hcomplete
        rfl
      · intro hvalues
        rw [List.map_eq_nil_iff.mp hvalues.symm]
        rfl
  | @cons field value fields values hvalue hvalues ih =>
      constructor
      · intro hcomplete
        cases value with
        | none => cases hcomplete
        | some n =>
            rcases exists_of_bind_eq_ok hcomplete with ⟨more, hmore, hcomplete⟩
            cases hcomplete
            rw [ih.mp hmore]
            rfl
      · intro hall
        cases ns with
        | nil => cases hall
        | cons n ns =>
            rcases List.cons.inj hall with ⟨rfl, hmore⟩
            rw [complete, ih.mpr hmore]
            rfl

theorem Within.holds {fields : List Field} {ns : List Int} (h : Within fields (ns.map some)) :
    List.Forall₂ (fun field n => field.range.Holds n) fields ns := by
  apply (List.forall₂_map_right_iff.mp h).imp
  intro field n hn
  exact hn n rfl

/-- The members that the values read so far come from, in the order of the fields. -/
def heldMembers : List Field -> FieldValues -> List Member
  | field :: fields, some n :: values => .ofInteger field.name n :: heldMembers fields values
  | _ :: fields, none :: values => heldMembers fields values
  | [], _ | _ :: _, [] => []

theorem heldMembers_none (fields : List Field) :
    heldMembers fields (fields.map fun _ => none) = [] := by
  induction fields with
  | nil => rfl
  | cons field fields ih => exact ih

theorem heldMembers_map_some (fields : List Field) (ns : List Int) :
    heldMembers fields (ns.map some) =
      List.zipWith (fun field n => .ofInteger field.name n) fields ns := by
  induction fields generalizing ns with
  | nil => rfl
  | cons field fields ih =>
      cases ns with
      | nil => rfl
      | cons n ns => exact congrArg _ (ih ns)

theorem heldMembers_set {fields : List Field} {values : FieldValues} {i : Nat} {field : Field}
    (n : Int) (hfield : fields[i]? = some field) (hvalue : values[i]? = some none) :
    (heldMembers fields (values.set i (some n))).Perm
      (.ofInteger field.name n :: heldMembers fields values) := by
  induction fields generalizing values i with
  | nil => cases hfield
  | cons first fields ih =>
      cases values with
      | nil => cases hvalue
      | cons value values =>
          cases i with
          | zero =>
              cases hfield
              cases hvalue
              exact .refl _
          | succ i =>
              cases value with
              | none => exact ih hfield hvalue
              | some m => exact ((ih hfield hvalue).cons _).trans (.swap _ _ _)

theorem mem_heldMembers_of_getElem? {fields : List Field} {values : FieldValues} {i : Nat}
    {field : Field} {n : Int} (hfield : fields[i]? = some field)
    (hvalue : values[i]? = some (some n)) :
    .ofInteger field.name n ∈ heldMembers fields values := by
  induction fields generalizing values i with
  | nil => cases hfield
  | cons first fields ih =>
      cases values with
      | nil => cases hvalue
      | cons value values =>
          cases i with
          | zero =>
              cases hfield
              cases hvalue
              exact List.mem_cons_self
          | succ i =>
              cases value with
              | none => exact ih hfield hvalue
              | some m => exact List.mem_cons_of_mem _ (ih hfield hvalue)

theorem exists_field_of_mem_heldMembers {fields : List Field} {values : FieldValues} {m : Member}
    (h : m ∈ heldMembers fields values) :
    exists field, field ∈ fields ∧ m.name = some field.name := by
  induction fields generalizing values with
  | nil => cases h
  | cons first fields ih =>
      have hmore : forall values, m ∈ heldMembers fields values ->
          exists field, field ∈ first :: fields ∧ m.name = some field.name := by
        intro values hm
        rcases ih hm with ⟨field, hfield, hname⟩
        exact ⟨field, List.mem_cons_of_mem first hfield, hname⟩
      cases values with
      | nil => cases h
      | cons value values =>
          cases value with
          | none => exact hmore values h
          | some n =>
              rcases List.mem_cons.mp h with rfl | hm
              · exact ⟨first, List.mem_cons_self, rfl⟩
              · exact hmore values hm

theorem eq_map_some_of_perm {fields : List Field} {values : FieldValues} {ns : List Int}
    (hnames : (fields.map Field.name).Nodup) (hvalues : values.length = fields.length)
    (hns : ns.length = fields.length)
    (h : (heldMembers fields values).Perm
      (List.zipWith (fun field n => .ofInteger field.name n) fields ns)) :
    values = ns.map some := by
  induction fields generalizing values ns with
  | nil =>
      rw [List.length_eq_zero_iff.mp hvalues, List.length_eq_zero_iff.mp hns]
      rfl
  | cons field fields ih =>
      rcases List.exists_cons_of_length_eq_add_one hvalues with ⟨value, values, rfl⟩
      rcases List.exists_cons_of_length_eq_add_one hns with ⟨n, ns, rfl⟩
      rcases List.nodup_cons.mp hnames with ⟨hfresh, hnames⟩
      have hnot : forall n, .ofInteger field.name n ∉ heldMembers fields values := by
        intro n hn
        rcases exists_field_of_mem_heldMembers hn with ⟨other, hother, hname⟩
        exact hfresh (List.mem_map.mpr ⟨other, hother, (Option.some.inj hname).symm⟩)
      have hmem := h.mem_iff.mpr (List.mem_cons_self)
      cases value with
      | none => exact absurd hmem (hnot n)
      | some k =>
          rcases List.mem_cons.mp hmem with heq | hlater
          · have hnk : n = k := writeInteger_injective (congrArg Member.value heq)
            subst hnk
            rw [ih hnames (Nat.succ.inj hvalues) (Nat.succ.inj hns) (List.Perm.cons_inv h)]
            rfl
          · exact absurd hlater (hnot n)

/-!
# Records from members
-/

section Layouts

variable {shape : Shape} {values values' : FieldValues} {m : Member} {ms : List Member}
  {ns : List Int}

theorem Stores.within (h : Stores shape values m values') (hvalues : Within shape.fields values) :
    Within shape.fields values' := by
  cases h with
  | passed => exact hvalues
  | taken hfield _ hn => exact hvalues.set hfield hn

theorem isField_ofInteger {i : Nat} {field : Field} (hfield : shape.fields[i]? = some field)
    (n : Int) : shape.isField (.ofInteger field.name n) = true :=
  decide_eq_true (List.mem_map_of_mem (List.mem_of_getElem? hfield))

theorem Stores.perm (h : Stores shape values m values') (hvalues : Within shape.fields values) :
    (heldMembers shape.fields values').Perm
      ([m].filter shape.isField ++ heldMembers shape.fields values) := by
  cases h with
  | @passed name v hname hstrict =>
      have hfield : shape.isField ⟨some name, v⟩ = false := decide_eq_false hname
      rw [List.filter_cons_of_neg (Bool.eq_false_iff.mp hfield)]
      exact .refl _
  | @taken i field n hfield hunread hn =>
      have hlt : i < values.length := by
        rw [<- hvalues.length_eq]
        exact (List.getElem?_eq_some_iff.mp hfield).1
      have hnone : values[i]? = some none := by
        rw [List.getElem?_eq_getElem hlt] at hunread ⊢
        exact congrArg some hunread
      rw [List.filter_cons_of_pos (isField_ofInteger hfield n)]
      exact heldMembers_set n hfield hnone

theorem Stores.perm_cons (h : Stores shape values m values')
    (hvalues : Within shape.fields values) (ms : List Member) :
    (ms.filter shape.isField ++ heldMembers shape.fields values').Perm
      ((m :: ms).filter shape.isField ++ heldMembers shape.fields values) := by
  have hsplit : (m :: ms).filter shape.isField =
      [m].filter shape.isField ++ ms.filter shape.isField :=
    List.filter_append [m] ms
  rw [hsplit, List.append_assoc]
  exact ((h.perm hvalues).append_left _).trans (List.perm_append_comm_assoc _ _ _)

theorem Gathers.within (h : Gathers shape values ms values')
    (hvalues : Within shape.fields values) : Within shape.fields values' := by
  induction h with
  | nil => exact hvalues
  | cons hstores _ ih => exact ih (hstores.within hvalues)

theorem Gathers.perm (h : Gathers shape values ms values') (hvalues : Within shape.fields values) :
    (heldMembers shape.fields values').Perm
      (ms.filter shape.isField ++ heldMembers shape.fields values) := by
  induction h with
  | nil => exact .refl _
  | @cons values next values' m ms hstores _ ih =>
      exact (ih (hstores.within hvalues)).trans (hstores.perm_cons hvalues ms)

theorem Stores.allowed (h : Stores shape values m values') :
    m.name ≠ none ∧ (shape.strict = true -> shape.isField m = true) := by
  cases h with
  | passed hname hstrict =>
      constructor
      · intro hnone
        cases hnone
      · intro hstrict'
        rw [hstrict] at hstrict'
        cases hstrict'
  | taken hfield =>
      constructor
      · intro hnone
        cases hnone
      · exact fun _ => isField_ofInteger hfield _

theorem Gathers.allowed (h : Gathers shape values ms values') :
    forall m, m ∈ ms -> m.name ≠ none ∧ (shape.strict = true -> shape.isField m = true) := by
  induction h with
  | nil =>
      intro m hm
      cases hm
  | cons hstores _ ih => exact List.forall_mem_cons.mpr ⟨hstores.allowed, ih⟩

theorem map_name_zipWith {fields : List Field} {ns : List Int}
    (h : List.Forall₂ (fun field n => field.range.Holds n) fields ns) :
    (List.zipWith (fun field n => Member.ofInteger field.name n) fields ns).map Member.name =
      (fields.map Field.name).map some := by
  induction h with
  | nil => rfl
  | cons _ _ ih => exact congrArg _ ih

theorem exists_of_mem_zipWith {fields : List Field} {ns : List Int}
    (h : List.Forall₂ (fun field n => field.range.Holds n) fields ns)
    (hm : m ∈ List.zipWith (fun field n => Member.ofInteger field.name n) fields ns) :
    exists (i : Nat) (field : Field) (n : Int),
      fields[i]? = some field ∧ field.range.Holds n ∧ m = .ofInteger field.name n := by
  induction h with
  | nil => cases hm
  | @cons field n fields ns hn _ ih =>
      rcases List.mem_cons.mp hm with rfl | hm
      · exact ⟨0, field, n, rfl, hn, rfl⟩
      · rcases ih hm with ⟨i, other, k, hother, hk, rfl⟩
        exact ⟨i + 1, other, k, hother, hk, rfl⟩

theorem nodup_names_members (hshape : shape.Exact) (h : shape.Holds ns) :
    ((shape.members ns).map Member.name).Nodup := by
  rw [Shape.members, map_name_zipWith h]
  exact hshape.nodup.map fun _ _ => Option.some.inj

theorem Layout.unread {i : Nat} {field : Field} {n : Int} (hshape : shape.Exact)
    (hholds : shape.Holds ns) (hfield : shape.fields[i]? = some field)
    (hperm : (.ofInteger field.name n :: ms ++ heldMembers shape.fields values).Perm
      (shape.members ns)) : values[i]?.join = none := by
  have hnames := (hperm.map Member.name).nodup_iff.mpr (nodup_names_members hshape hholds)
  cases hvalue : values[i]? with
  | none => rfl
  | some value =>
      cases value with
      | none => rfl
      | some k =>
          have hheld := mem_heldMembers_of_getElem? hfield hvalue
          have hname : some field.name ∈
              (ms ++ heldMembers shape.fields values).map Member.name :=
            List.mem_map.mpr ⟨_, List.mem_append_right ms hheld, rfl⟩
          exact absurd hname (List.nodup_cons.mp hnames).1

theorem exists_gathers (hshape : shape.Exact) (hholds : shape.Holds ns)
    (hvalues : Within shape.fields values)
    (hallowed : forall m, m ∈ ms -> m.name ≠ none ∧ (shape.strict = true -> shape.isField m = true))
    (hperm : (ms.filter shape.isField ++ heldMembers shape.fields values).Perm
      (shape.members ns)) :
    exists values', Gathers shape values ms values' := by
  induction ms generalizing values with
  | nil => exact ⟨values, .nil⟩
  | cons m ms ih =>
      rcases List.forall_mem_cons.mp hallowed with ⟨hm, hms⟩
      have hstores : exists next, Stores shape values m next := by
        cases hfield : shape.isField m with
        | true =>
            rw [List.filter_cons_of_pos hfield] at hperm
            rcases exists_of_mem_zipWith hholds (hperm.mem_iff.mp List.mem_cons_self) with
              ⟨i, field, n, hget, hn, rfl⟩
            exact ⟨_, .taken hget (Layout.unread hshape hholds hget hperm) hn⟩
        | false =>
            rcases m with ⟨name, v⟩
            cases name with
            | none => exact absurd rfl hm.1
            | some name =>
                have hstrict : shape.strict = false := by
                  cases hs : shape.strict with
                  | false => rfl
                  | true =>
                      rw [hm.2 hs] at hfield
                      cases hfield
                exact ⟨values, .passed (of_decide_eq_false hfield) hstrict⟩
      rcases hstores with ⟨next, hstores⟩
      have hnext := (hstores.perm_cons hvalues ms).trans hperm
      rcases ih (hstores.within hvalues) hms hnext with ⟨values', hgathers⟩
      exact ⟨values', .cons hstores hgathers⟩

/-- Members make up a record exactly if they lay it out. -/
theorem gathers_complete_iff (hshape : shape.Exact) :
    (exists values', Gathers shape (shape.fields.map fun _ => none) ms values' ∧
        complete shape.fields values' = .ok ns) <->
      Layout shape ns ms := by
  have hstart := within_none shape.fields
  have hnone := heldMembers_none shape.fields
  constructor
  · intro ⟨values', hgathers, hcomplete⟩
    have hwithin := hgathers.within hstart
    rcases hwithin.complete_iff.mp hcomplete with rfl
    have hperm := hgathers.perm hstart
    rw [hnone, List.append_nil, heldMembers_map_some] at hperm
    exact
      { holds := hwithin.holds
        named := fun m hm => (hgathers.allowed m hm).1
        known := fun hstrict m hm => (hgathers.allowed m hm).2 hstrict
        fields := hperm.symm }
  · intro h
    have hperm := h.fields
    rw [<- List.append_nil (ms.filter shape.isField), <- hnone] at hperm
    have hallowed := fun m hm => And.intro (h.named m hm) fun hstrict => h.known hstrict m hm
    rcases exists_gathers hshape h.holds hstart hallowed hperm with ⟨values', hgathers⟩
    have hwithin := hgathers.within hstart
    have hheld := (hgathers.perm hstart).trans hperm
    have hvalues := eq_map_some_of_perm hshape.nodup hwithin.length_eq.symm
      h.holds.length_eq.symm hheld
    exact ⟨values', hgathers, hwithin.complete_iff.mpr hvalues⟩

theorem isField_of_mem_members (h : shape.Holds ns) (hm : m ∈ shape.members ns) :
    shape.isField m = true := by
  rcases exists_of_mem_zipWith h hm with ⟨i, field, n, hfield, -, rfl⟩
  exact isField_ofInteger hfield n

theorem Layout.of_perm (h : shape.Holds ns) (hperm : ms.Perm (shape.members ns)) :
    Layout shape ns ms := by
  have hfield : forall m, m ∈ ms -> shape.isField m = true := fun m hm =>
    isField_of_mem_members h (hperm.mem_iff.mp hm)
  have hnamed : forall m, m ∈ ms -> m.name ≠ none := by
    intro m hm hnone
    have hm := hfield m hm
    rw [Shape.isField, hnone] at hm
    cases hm
  exact
    { holds := h
      named := hnamed
      known := fun _ => hfield
      fields := by rwa [List.filter_eq_self.mpr hfield] }

end Layouts
end Json
end BlockCache
