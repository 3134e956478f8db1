import BlockCache.Json.Codec
import BlockCache.Proofs.Json.Layouts

/-!
# Records

When a record is read from an object or from an array, and that the text written for a record
is such an object.
-/

namespace BlockCache
namespace Json

inductive BracketText (bracket : Bracket) (items : List bracket.Item) : List Char -> Prop where
  | mk {t a b : List Char} :
      Blank a -> Text (.items bracket items) t -> Blank b ->
      BracketText bracket items (a ++ bracket.opening :: (t ++ bracket.closing :: b))

theorem BracketText.exists_items {bracket : Bracket} {items : List bracket.Item} {cs : List Char}
    (h : BracketText bracket items cs) :
    exists t rest, Text (.items bracket items) t ∧ Blank rest ∧
      skipBlank cs = bracket.opening :: (t ++ bracket.closing :: rest) := by
  cases h with
  | mk hbefore hitems hbehind =>
      have hopening : isBlank bracket.opening = false := by cases bracket <;> decide
      exact ⟨_, _, hitems, hbehind, skipBlank_append_cons hbefore hopening _⟩

section Records

variable {shape : Shape} {ns : List Int}

theorem readObject_iff {ms : List Member} {t rest left : List Char} (hshape : shape.Exact)
    (h : Text (.items .curly ms) t) :
    Reads (readObject shape (t ++ '}' :: rest)) ns left <-> Layout shape ns ms ∧ left = rest := by
  rw [<- gathers_complete_iff hshape]
  unfold readObject
  cases ms with
  | nil =>
      cases h with
      | none hblank =>
          rw [nextChar_eq (skipBlank_append_cons hblank (by decide) rest)]
          change Reads (do return (<- complete shape.fields _, _)) ns left <-> _
          rw [reads_bind_iff]
          constructor
          · intro ⟨all, hcomplete, hread⟩
            rcases reads_ok_iff.mp hread with ⟨rfl, rfl⟩
            exact ⟨⟨_, .nil, hcomplete⟩, rfl⟩
          · intro ⟨⟨values', hgathers, hcomplete⟩, hleft⟩
            cases hgathers
            exact ⟨ns, hcomplete, reads_ok_iff.mpr ⟨rfl, hleft.symm⟩⟩
  | cons m ms =>
      rcases h.quoted ('}' :: rest) with ⟨cs, hcs⟩
      rw [nextChar_eq hcs]
      constructor
      · intro hread
        rcases Reads.exists_of_bind hread with ⟨values', last, _, hmembers, hread⟩
        rcases gathers_of_readMembers hshape h hcs hmembers with ⟨hgathers, rfl⟩
        rcases reads_bind_iff.mp hread with ⟨all, hcomplete, hread⟩
        rcases reads_ok_iff.mp hread with ⟨rfl, rfl⟩
        exact ⟨⟨values', hgathers, hcomplete⟩, rfl⟩
      · intro ⟨⟨values', hgathers, hcomplete⟩, hleft⟩
        subst hleft
        apply Reads.bind (hgathers.reads hshape h hcs)
        intro _
        exact reads_bind_iff.mpr ⟨ns, hcomplete, reads_ok_iff.mpr ⟨rfl, rfl⟩⟩

theorem readRecord_object_iff {ms : List Member} {t cs rest left : List Char}
    (hshape : shape.Exact) (h : Text (.items .curly ms) t)
    (hcs : skipBlank cs = '{' :: (t ++ '}' :: rest)) :
    Reads (readRecord shape cs) ns left <-> Layout shape ns ms ∧ left = rest := by
  rw [<- readObject_iff hshape h]
  unfold readRecord
  rw [nextChar_eq hcs]
  constructor
  · intro hread
    rcases Reads.exists_of_bind hread with ⟨all, last, _, hobject, hread⟩
    rcases reads_ok_iff.mp hread with ⟨rfl, rfl⟩
    exact hobject
  · intro hobject
    exact Reads.bind hobject fun _ => reads_ok_iff.mpr ⟨rfl, rfl⟩

inductive ElementsBehind (rest : List Char) : List (List Char) -> List Char -> Prop where
  | closed {cs : List Char} : skipBlank cs = ']' :: rest -> ElementsBehind rest [] cs
  | more {v : List Char} {vs : List (List Char)} {t cs : List Char} :
      Text (.items .square (v :: vs)) t -> skipBlank cs = ',' :: (t ++ ']' :: rest) ->
      ElementsBehind rest (v :: vs) cs

theorem Text.exists_behind {v : List Char} {vs : List (List Char)} {t : List Char}
    (h : Text (.items .square (v :: vs)) t) (rest : List Char) :
    exists behind, skipBlank (t ++ ']' :: rest) = v ++ behind ∧ Stops behind ∧
      ElementsBehind rest vs behind := by
  cases h with
  | last hitem =>
      cases hitem with
      | element ha hvalue hb =>
          simp only [List.append_assoc]
          have hbehind := skipBlank_append_cons hb (isBlank_closing .square) rest
          exact ⟨_, skipBlank_value ha hvalue _, stops_blank_append hb rfl, .closed hbehind⟩
  | more hitem hitems =>
      cases hitem with
      | element ha hvalue hb =>
          simp only [List.append_assoc, List.cons_append]
          have hcomma : isBlank ',' = false := by decide
          exact ⟨_, skipBlank_value ha hvalue _, stops_blank_append hb rfl,
            .more hitems (skipBlank_append_cons hb hcomma _)⟩

theorem readElements_cons {field : Field} {fields : List Field} {count : Nat} {c : Char} {n : Int}
    {cs after start behind rest : List Char} (hcs : skipBlank cs = c :: after) (hc : c ≠ ']')
    (hstart : Leaves (readSeparator count c after) start)
    (hn : Reads (readInteger field.range start) n behind)
    (hmore : Reads (readElements shape (count + 1) fields behind) ns rest) :
    Reads (readElements shape count (field :: fields) cs) (n :: ns) rest := by
  rw [readElements, nextChar_eq hcs]
  change Reads (if c = ']' then _ else _) _ _
  rw [if_neg hc]
  apply Leaves.bind hstart
  intro _
  apply Reads.bind hn
  intro _
  apply Reads.bind hmore
  intro _
  exact reads_ok_iff.mpr ⟨rfl, rfl⟩

theorem readElements_behind {fields : List Field} {count : Nat} {cs rest : List Char}
    (hrange : forall field, field ∈ fields -> field.range.Exact)
    (hholds : List.Forall₂ (fun field n => field.range.Holds n) fields ns) (hcount : 0 < count)
    (h : ElementsBehind rest (ns.map writeInteger) cs) :
    Reads (readElements shape count fields cs) ns rest := by
  induction hholds generalizing count cs with
  | nil =>
      cases h with
      | closed hclosing =>
          rw [readElements, nextChar_eq hclosing]
          exact reads_ok_iff.mpr ⟨rfl, rfl⟩
  | @cons field n fields ns hn _ ih =>
      rcases List.forall_mem_cons.mp hrange with ⟨hfield, hfields⟩
      cases h with
      | @more _ _ t _ hitems hcs =>
          rcases hitems.exists_behind rest with ⟨behind, hstart, hstops, hbehind⟩
          rcases hitems.items_start (']' :: rest) with ⟨d, last, hd, hdstart⟩
          have hseparator : Leaves (readSeparator count ',' (t ++ ']' :: rest)) (d :: last) := by
            have hclosing : d ≠ ']' := ne_closing_of_isStart hdstart .square
            rw [readSeparator, if_neg (Nat.ne_of_gt hcount), if_pos rfl, nextChar_eq hd]
            change Leaves (if d = ']' then _ else _) _
            rw [if_neg hclosing]
            exact ⟨_, rfl⟩
          have hread : Reads (readInteger field.range (d :: last)) n behind := by
            apply readInteger_writeInteger hfield hn ?_ hstops
            rw [skipBlank_cons (isBlank_of_isStart hdstart), <- hd, hstart]
          exact readElements_cons hcs (by decide) hseparator hread
            (ih hfields (Nat.succ_pos count) hbehind)

theorem readElements_first {fields : List Field} {t rest : List Char}
    (hrange : forall field, field ∈ fields -> field.range.Exact)
    (hholds : List.Forall₂ (fun field n => field.range.Holds n) fields ns)
    (h : Text (.items .square (ns.map writeInteger)) t) :
    Reads (readElements shape 0 fields (t ++ ']' :: rest)) ns rest := by
  cases hholds with
  | nil =>
      cases h with
      | none hblank =>
          have hclosing : skipBlank (t ++ ']' :: rest) = ']' :: rest :=
            skipBlank_append_cons hblank (by decide) rest
          rw [readElements, nextChar_eq hclosing]
          exact reads_ok_iff.mpr ⟨rfl, rfl⟩
  | @cons field n fields ns hn hns =>
      rcases List.forall_mem_cons.mp hrange with ⟨hfield, hfields⟩
      rcases h.exists_behind rest with ⟨behind, hstart, hstops, hbehind⟩
      rcases h.items_start (']' :: rest) with ⟨c, after, hc, hcstart⟩
      have hread : Reads (readInteger field.range (c :: after)) n behind := by
        apply readInteger_writeInteger hfield hn ?_ hstops
        rw [skipBlank_cons (isBlank_of_isStart hcstart), <- hc, hstart]
      exact readElements_cons hc (ne_closing_of_isStart hcstart .square) ⟨_, rfl⟩ hread
        (readElements_behind hfields hns Nat.one_pos hbehind)

theorem readRecord_array {t cs rest : List Char} (hshape : shape.Exact) (hholds : shape.Holds ns)
    (h : Text (.items .square (ns.map writeInteger)) t)
    (hcs : skipBlank cs = '[' :: (t ++ ']' :: rest)) : Reads (readRecord shape cs) ns rest := by
  unfold readRecord
  rw [nextChar_eq hcs]
  exact Reads.bind (readElements_first hshape.range hholds h) fun _ => reads_ok_iff.mpr ⟨rfl, rfl⟩

end Records

/-!
# Ranges of what is read

Whatever the text is, the values that are read are in the ranges of their fields.
-/

theorem holds_of_readInteger {range : IntRange} {cs rest : List Char} {n : Int}
    (h : Reads (readInteger range cs) n rest) : range.Holds n := by
  rcases reads_bind_iff.mp h with ⟨⟨c, left⟩, hnext, -⟩
  have hcs := skipBlank_of_nextChar hnext
  by_cases hminus : c = '-'
  · subst hminus
    exact ((readInteger_minus_iff hcs).mp h).2
  · cases hdigit : c.isDigit with
    | true => exact ((readInteger_digit_iff hcs hdigit).mp h).2
    | false => exact absurd h (not_reads_integer hcs hminus hdigit)

section Ranges

variable {shape : Shape} {values values' : FieldValues} {ns : List Int}

theorem within_of_readMember {name : String} {cs rest : List Char} (hshape : shape.Exact)
    (hvalues : Within shape.fields values)
    (h : Reads (readMember shape values name cs) values' rest) : Within shape.fields values' := by
  unfold readMember at h
  split at h
  · split at h
    · exact absurd h not_reads_error
    · rcases reads_bind_iff.mp h with ⟨colon, -, h⟩
      rcases Leaves.exists_of_bind h with ⟨last, _, -, h⟩
      rcases reads_ok_iff.mp h with ⟨rfl, -⟩
      exact hvalues
  · rename_i i hsome
    split at h
    · exact absurd h not_reads_error
    · rcases (findIdx?_eq_some_iff hshape).mp hsome with ⟨field, hfield, -⟩
      rcases reads_bind_iff.mp h with ⟨colon, -, h⟩
      simp only [hfield, Option.map_some, Option.getD_some] at h
      rcases Reads.exists_of_bind h with ⟨n, last, _, hn, h⟩
      rcases reads_ok_iff.mp h with ⟨rfl, -⟩
      exact hvalues.set hfield (holds_of_readInteger hn)

theorem within_of_readMembers {cs rest : List Char} (hshape : shape.Exact)
    (hvalues : Within shape.fields values)
    (h : Reads (readMembers shape values cs) values' rest) : Within shape.fields values' := by
  -- The text is any text here, so only its length can carry the induction.
  induction hlength : cs.length using Nat.strong_induction_on generalizing cs values rest with
  | _ length ih =>
      rw [readMembers] at h
      rcases h.exists_of_bind with ⟨name, named, hnamed, -, h⟩
      rcases h.exists_of_bind with ⟨next, valued, hvalued, hmember, h⟩
      have hnext := within_of_readMember hshape hvalues hmember
      rcases reads_bind_iff.mp h with ⟨⟨c, after⟩, -, h⟩
      dsimp only at h
      split at h
      · rcases reads_ok_iff.mp h with ⟨rfl, -⟩
        exact hnext
      · split at h
        · rcases reads_bind_iff.mp h with ⟨⟨q, quoted⟩, -, h⟩
          dsimp only at h
          split at h
          · rcases h.exists_of_bind with ⟨all, last, _, hmore, h⟩
            rcases reads_ok_iff.mp h with ⟨rfl, -⟩
            have hshorter : quoted.val.length < length := by
              have hafter := after.property
              have hquoted := quoted.property
              dsimp only at hvalued hafter
              omega
            exact ih _ hshorter hnext hmore rfl
          · exact absurd h not_reads_error
        · exact absurd h not_reads_error

theorem holds_of_readObject {cs rest : List Char} (hshape : shape.Exact)
    (h : Reads (readObject shape cs) ns rest) : shape.Holds ns := by
  have hstart := within_none shape.fields
  have hcomplete : forall values, Within shape.fields values ->
      complete shape.fields values = .ok ns -> shape.Holds ns := by
    intro values hvalues hall
    rcases hvalues.complete_iff.mp hall with rfl
    exact hvalues.holds
  rcases reads_bind_iff.mp h with ⟨⟨c, after⟩, -, h⟩
  dsimp only at h
  split at h
  · rcases reads_bind_iff.mp h with ⟨all, hall, h⟩
    rcases reads_ok_iff.mp h with ⟨rfl, -⟩
    exact hcomplete _ hstart hall
  · split at h
    · rcases h.exists_of_bind with ⟨values, last, _, hmembers, h⟩
      rcases reads_bind_iff.mp h with ⟨all, hall, h⟩
      rcases reads_ok_iff.mp h with ⟨rfl, -⟩
      exact hcomplete _ (within_of_readMembers hshape hstart hmembers) hall
    · exact absurd h not_reads_error

theorem holds_of_readElements {fields : List Field} {count : Nat} {cs rest : List Char}
    (h : Reads (readElements shape count fields cs) ns rest) :
    List.Forall₂ (fun field n => field.range.Holds n) fields ns := by
  induction fields generalizing count cs ns rest with
  | nil =>
      rcases reads_bind_iff.mp h with ⟨⟨c, after⟩, -, h⟩
      dsimp only at h
      split at h
      · rcases reads_ok_iff.mp h with ⟨rfl, -⟩
        exact .nil
      · exact absurd h not_reads_error
  | cons field fields ih =>
      rcases reads_bind_iff.mp h with ⟨⟨c, after⟩, -, h⟩
      dsimp only at h
      split at h
      · exact absurd h not_reads_error
      · rcases Leaves.exists_of_bind h with ⟨start, _, -, h⟩
        rcases h.exists_of_bind with ⟨n, read, _, hn, h⟩
        rcases h.exists_of_bind with ⟨more, last, _, hmore, h⟩
        rcases reads_ok_iff.mp h with ⟨rfl, -⟩
        exact .cons (holds_of_readInteger hn) (ih hmore)

theorem holds_of_readRecord {cs rest : List Char} (hshape : shape.Exact)
    (h : Reads (readRecord shape cs) ns rest) : shape.Holds ns := by
  rcases reads_bind_iff.mp h with ⟨⟨c, after⟩, -, h⟩
  dsimp only at h
  split at h
  · rcases h.exists_of_bind with ⟨all, last, _, helements, h⟩
    rcases reads_ok_iff.mp h with ⟨rfl, -⟩
    exact holds_of_readElements helements
  · split at h
    · rcases h.exists_of_bind with ⟨all, last, _, hobject, h⟩
      rcases reads_ok_iff.mp h with ⟨rfl, -⟩
      exact holds_of_readObject hshape hobject
    · exact absurd h not_reads_error

end Ranges

/-!
# Written records
-/

theorem text_writeMember {name : String} (hname : name.toList.all isPlain = true) (n : Int) :
    Text (.item .curly (.ofInteger name n)) (writeMember name n) := by
  have hvalue : Text .value (writeInteger n) := .number (numberText_writeInteger n)
  have hkey : KeyText (some name) name.toList := .named (spells_self hname)
  have htext := Text.member blank_nil hkey blank_nil blank_nil hvalue blank_nil
  simpa [writeMember, Member.ofInteger] using htext

theorem text_writeMembers {members : List (String × Int)}
    (hnames : forall m, m ∈ members -> m.1.toList.all isPlain = true) :
    Text (.items .curly (members.map fun m => .ofInteger m.1 m.2))
      ([','].intercalate (members.map fun m => writeMember m.1 m.2)) := by
  induction members with
  | nil => exact .none blank_nil
  | cons m members ih =>
      rcases List.forall_mem_cons.mp hnames with ⟨hm, hmembers⟩
      cases members with
      | nil =>
          have htext := Text.last (text_writeMember hm m.2)
          rwa [<- List.append_nil (writeMember m.1 m.2)] at htext
      | cons next members => exact .more (text_writeMember hm m.2) (ih hmembers)

theorem text_writeObject {members : List (String × Int)}
    (hnames : forall m, m ∈ members -> m.1.toList.all isPlain = true) :
    Text .value (writeObject members) :=
  .bracketed (text_writeMembers hnames)

theorem bracketText_writeObject {members : List (String × Int)}
    (hnames : forall m, m ∈ members -> m.1.toList.all isPlain = true) :
    BracketText .curly (members.map fun m => .ofInteger m.1 m.2) (writeObject members) := by
  have htext := BracketText.mk blank_nil (text_writeMembers hnames) blank_nil
  simpa [writeObject, Bracket.opening, Bracket.closing] using htext

/-!
# Types that are written as records
-/

theorem readWhole_iff {α : Type} {reader : (cs : List Char) -> Except Failure (α × Rest cs)}
    {text : String} {a : α} :
    readWhole reader text = .ok a <->
      exists rest, Reads (reader text.toList) a rest ∧ Blank rest := by
  constructor
  · intro h
    rcases exists_of_bind_eq_ok h with ⟨⟨b, rest⟩, hread, h⟩
    dsimp only at h
    split at h
    · rename_i hblank
      cases h
      exact ⟨rest.val, .of_eq hread, blank_iff.mpr hblank⟩
    · cases h
  · intro ⟨rest, ⟨hle, hread⟩, hblank⟩
    unfold readWhole
    rw [hread]
    exact if_pos (blank_iff.mp hblank)

theorem mapRead_iff {α β : Type} {reader : (cs : List Char) -> Except Failure (α × Rest cs)}
    {f : α -> β} {cs rest : List Char} {b : β} :
    Reads (mapRead f reader cs) b rest <-> exists a, Reads (reader cs) a rest ∧ f a = b := by
  constructor
  · intro ⟨hle, h⟩
    rcases exists_of_map_eq_ok h with ⟨⟨a, left⟩, hread, heq⟩
    cases heq
    exact ⟨a, .of_eq hread, rfl⟩
  · intro ⟨a, ⟨hle, hread⟩, hb⟩
    refine ⟨hle, ?_⟩
    rw [mapRead, hread, <- hb]
    rfl

/-- Records of a shape are the values of a type. -/
structure Encodes {α : Type} (shape : Shape) (ofValues : List Int -> α) (values : α -> List Int) :
    Prop where
  exact : shape.Exact
  plain : forall name, name ∈ shape.fieldNames -> name.toList.all isPlain = true
  ofValues_values : forall a, ofValues (values a) = a
  values_ofValues : forall ns, shape.Holds ns -> values (ofValues ns) = ns

namespace Encodes

variable {α : Type} {shape : Shape} {ofValues : List Int -> α} {values : α -> List Int}
  {text : String} {a : α}

/-- A value is read from an object exactly if it is laid out in the members. -/
theorem object_iff {ms : List Member} (h : Encodes shape ofValues values)
    (htext : BracketText .curly ms text.toList) :
    readWhole (mapRead ofValues (readRecord shape)) text = .ok a <->
      Layout shape (values a) ms := by
  rw [readWhole_iff]
  rcases htext.exists_items with ⟨t, behind, hitems, hbehind, hskip⟩
  constructor
  · intro ⟨rest, hread, _⟩
    rcases mapRead_iff.mp hread with ⟨ns, hrecord, rfl⟩
    rcases (readRecord_object_iff h.exact hitems hskip).mp hrecord with ⟨hlayout, -⟩
    rwa [h.values_ofValues ns hlayout.holds]
  · intro hlayout
    have hrecord := (readRecord_object_iff h.exact hitems hskip).mpr ⟨hlayout, rfl⟩
    exact ⟨behind, mapRead_iff.mpr ⟨values a, hrecord, h.ofValues_values a⟩, hbehind⟩

theorem read_array (h : Encodes shape ofValues values) (hholds : shape.Holds (values a))
    (htext : BracketText .square ((values a).map writeInteger) text.toList) :
    readWhole (mapRead ofValues (readRecord shape)) text = .ok a := by
  rw [readWhole_iff]
  rcases htext.exists_items with ⟨t, behind, hitems, hbehind, hskip⟩
  have hread := readRecord_array h.exact hholds hitems hskip
  exact ⟨behind, mapRead_iff.mpr ⟨values a, hread, h.ofValues_values a⟩, hbehind⟩

theorem holds_of_read (h : Encodes shape ofValues values)
    (hread : readWhole (mapRead ofValues (readRecord shape)) text = .ok a) :
    shape.Holds (values a) := by
  rcases readWhole_iff.mp hread with ⟨rest, hmapped, -⟩
  rcases mapRead_iff.mp hmapped with ⟨ns, hrecord, rfl⟩
  have hholds := holds_of_readRecord h.exact hrecord
  rwa [h.values_ofValues ns hholds]

theorem plain_written (h : Encodes shape ofValues values) (a : α) :
    forall m, m ∈ shape.fieldNames.zip (values a) -> m.1.toList.all isPlain = true :=
  fun m hm => h.plain m.1 (List.of_mem_zip hm).1

theorem bracketText_written (h : Encodes shape ofValues values) (a : α) :
    BracketText .curly (shape.members (values a))
      (writeObject (shape.fieldNames.zip (values a))) := by
  have hmembers : (shape.fieldNames.zip (values a)).map (fun m => .ofInteger m.1 m.2) =
      shape.members (values a) := by
    rw [Shape.members, Shape.fieldNames, List.map_zip_eq_zipWith, List.zipWith_map_left]
    rfl
  rw [<- hmembers]
  exact bracketText_writeObject (h.plain_written a)

theorem read_written (h : Encodes shape ofValues values) (hholds : shape.Holds (values a)) :
    readWhole (mapRead ofValues (readRecord shape))
      (String.ofList (writeObject (shape.fieldNames.zip (values a)))) = .ok a := by
  apply (h.object_iff ?_).mpr (Layout.of_perm hholds (.refl _))
  rw [String.toList_ofList]
  exact h.bracketText_written a

end Encodes

end Json
end BlockCache
