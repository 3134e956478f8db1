import BlockCache.Proofs.Json.Values
import Mathlib.Data.List.Forall2
import Mathlib.Data.List.Nodup

/-!
# Members of objects

What reading the members of an object does to the values of a record, member by member: a
field is taken if it was not there before, another member is passed over or refused.
-/

namespace BlockCache
namespace Json

def Member.ofInteger (name : String) (n : Int) : Member :=
  ⟨some name, writeInteger n⟩

namespace Shape

def members (shape : Shape) (ns : List Int) : List Member :=
  List.zipWith (fun field n => .ofInteger field.name n) shape.fields ns

def isField (shape : Shape) (m : Member) : Bool :=
  m.name.any fun name => name ∈ shape.fieldNames

def Holds (shape : Shape) (ns : List Int) : Prop :=
  List.Forall₂ (fun field n => field.range.Holds n) shape.fields ns

/-- The fields can be told apart, and their integers are read exactly. -/
structure Exact (shape : Shape) : Prop where
  nodup : shape.fieldNames.Nodup
  range : forall field, field ∈ shape.fields -> field.range.Exact

end Shape

/-- What a member does to the values that were read before it. -/
inductive Stores (shape : Shape) (values : FieldValues) : Member -> FieldValues -> Prop where
  | passed {name : String} {v : List Char} :
      name ∉ shape.fieldNames -> shape.strict = false -> Stores shape values ⟨some name, v⟩ values
  | taken {i : Nat} {field : Field} {n : Int} :
      shape.fields[i]? = some field -> values[i]?.join = none -> field.range.Holds n ->
      Stores shape values (.ofInteger field.name n) (values.set i (some n))

theorem findIdx?_eq_none_iff {shape : Shape} {name : String} :
    (shape.fields.findIdx? fun field => field.name = name) = none <->
      name ∉ shape.fieldNames := by
  simp [Shape.fieldNames, List.findIdx?_eq_none_iff]

theorem findIdx?_eq_some_iff {shape : Shape} {name : String} {i : Nat} (h : shape.Exact) :
    (shape.fields.findIdx? fun field => field.name = name) = some i <->
      exists field, shape.fields[i]? = some field ∧ field.name = name := by
  rw [List.findIdx?_eq_some_iff_getElem]
  constructor
  · intro ⟨hi, hname, _⟩
    exact ⟨shape.fields[i], List.getElem?_eq_getElem hi, of_decide_eq_true hname⟩
  · intro ⟨field, hfield, hname⟩
    rcases List.getElem?_eq_some_iff.mp hfield with ⟨hi, rfl⟩
    refine ⟨hi, decide_eq_true hname, ?_⟩
    intro j hj hfirst
    have hfields : shape.fields.Pairwise fun first second => first.name ≠ second.name :=
      List.pairwise_map.mp h.nodup
    have hne := List.pairwise_iff_getElem.mp hfields j i (Nat.lt_trans hj hi) hi hj
    exact hne ((of_decide_eq_true hfirst).trans hname.symm)

section Members

variable {shape : Shape} {values values' : FieldValues} {name : String}
  {cs colon v rest left : List Char}

theorem stores_of_readMember (hshape : shape.Exact) (hcs : skipBlank cs = ':' :: colon)
    (hcolon : skipBlank colon = v ++ rest) (hv : Text .value v) (hrest : Stops rest)
    (hread : Reads (readMember shape values name cs) values' left) :
    Stores shape values ⟨some name, v⟩ values' ∧ left = rest := by
  unfold readMember at hread
  rw [readColon_eq hcs] at hread
  split at hread
  · rename_i hnone
    split at hread
    · exact absurd hread not_reads_error
    · rename_i hstrict
      rcases hv.skips_value hcolon hrest with ⟨hle, hskip⟩
      simp only [bind, Except.bind, hskip] at hread
      rcases reads_ok_iff.mp hread with ⟨rfl, rfl⟩
      exact ⟨.passed (findIdx?_eq_none_iff.mp hnone) (Bool.eq_false_iff.mpr hstrict), rfl⟩
  · rename_i i hsome
    split at hread
    · exact absurd hread not_reads_error
    · rename_i hunread
      rcases (findIdx?_eq_some_iff hshape).mp hsome with ⟨field, hfield, rfl⟩
      have hrange : field.range.Exact := hshape.range field (List.mem_of_getElem? hfield)
      simp only [hfield, Option.map_some, Option.getD_some] at hread
      rcases Reads.exists_of_bind hread with ⟨n, last, _, hn, hread⟩
      rcases (hv.readInteger_iff hrange hcolon hrest).mp hn with ⟨rfl, hholds, rfl⟩
      rcases reads_ok_iff.mp hread with ⟨rfl, rfl⟩
      exact ⟨.taken hfield (Option.not_isSome_iff_eq_none.mp hunread) hholds, rfl⟩

theorem Stores.reads (h : Stores shape values ⟨some name, v⟩ values') (hshape : shape.Exact)
    (hcs : skipBlank cs = ':' :: colon) (hcolon : skipBlank colon = v ++ rest)
    (hv : Text .value v) (hrest : Stops rest) :
    Reads (readMember shape values name cs) values' rest := by
  unfold readMember
  rw [readColon_eq hcs]
  cases h with
  | passed hname hstrict =>
      rcases hv.skips_value hcolon hrest with ⟨hle, hskip⟩
      rw [findIdx?_eq_none_iff.mpr hname, hstrict]
      simp only [bind, Except.bind, hskip]
      exact reads_ok_iff.mpr ⟨rfl, rfl⟩
  | @taken i field n hfield hunread hholds =>
      have hrange : field.range.Exact := hshape.range field (List.mem_of_getElem? hfield)
      have hn := (hv.readInteger_iff hrange hcolon hrest).mpr ⟨rfl, hholds, rfl⟩
      rw [(findIdx?_eq_some_iff hshape).mpr ⟨field, hfield, rfl⟩]
      simp only [hunread, hfield, Option.map_some, Option.getD_some]
      exact Reads.bind hn fun _ => reads_ok_iff.mpr ⟨rfl, rfl⟩

end Members

inductive MemberBefore (m : Member) (rest : List Char) : List Char -> Prop where
  | mk {key after colon blanks : List Char} :
      KeyText m.name key -> skipBlank after = ':' :: colon ->
      skipBlank colon = m.value ++ (blanks ++ rest) -> Text .value m.value -> Blank blanks ->
      MemberBefore m rest (key ++ '"' :: after)

theorem Text.memberBefore {m : Member} {t rest cs : List Char} (h : Text (.item .curly m) t)
    (hcs : skipBlank (t ++ rest) = '"' :: cs) : MemberBefore m rest cs := by
  cases h with
  | member ha hkey hb hc hvalue hd =>
      simp only [List.append_assoc, List.cons_append] at hcs
      rw [skipBlank_append_cons ha (by decide)] at hcs
      rw [<- (List.cons.inj hcs).2]
      exact .mk hkey (skipBlank_append_cons hb (by decide) _) (skipBlank_value hc hvalue _)
        hvalue hd

theorem Text.quoted {m : Member} {ms : List Member} {t : List Char}
    (h : Text (.items .curly (m :: ms)) t) (rest : List Char) :
    exists cs, skipBlank (t ++ rest) = '"' :: cs := by
  have hitem : forall t rest, Text (.item .curly m) t ->
      exists cs, skipBlank (t ++ rest) = '"' :: cs := by
    intro t rest hitem
    cases hitem with
    | member ha =>
        rw [List.append_assoc, List.cons_append, skipBlank_append_cons ha (by decide)]
        exact ⟨_, rfl⟩
  cases h with
  | last h => exact hitem _ rest h
  | more h _ =>
      rw [List.append_assoc]
      exact hitem _ _ h

section Steps

variable {shape : Shape} {values values' : FieldValues} {m : Member}
  {c : Char} {cs rest left : List Char}

theorem stops_behind_member {blanks : List Char} (h : Blank blanks) (hc : c = ',' ∨ c = '}')
    (rest : List Char) : Stops (blanks ++ c :: rest) := by
  have hclosing : c = ',' ∨ c = Bracket.curly.closing := hc
  exact stops_behind_item h hclosing rest

theorem isBlank_behind_member (hc : c = ',' ∨ c = '}') : isBlank c = false := by
  rcases hc with rfl | rfl <;> rfl

theorem Stores.exists_name (h : Stores shape values m values') :
    exists name, m = ⟨some (String.ofList name), m.value⟩ := by
  cases h with
  | @passed name => exact ⟨name.toList, by rw [String.ofList_toList]⟩
  | @taken i field => exact ⟨field.name.toList, by rw [String.ofList_toList]; rfl⟩

inductive ReadsBehind (shape : Shape) (values values' : FieldValues) (rest left : List Char) :
    Char -> Prop where
  | closed : values' = values -> left = rest -> ReadsBehind shape values values' rest left '}'
  | more {cs : List Char} :
      skipBlank rest = '"' :: cs -> Reads (readMembers shape values cs) values' left ->
      ReadsBehind shape values values' rest left ','

theorem MemberBefore.exists_stores (hshape : shape.Exact) (h : MemberBefore m (c :: rest) cs)
    (hc : c = ',' ∨ c = '}') (hread : Reads (readMembers shape values cs) values' left) :
    exists next, Stores shape values m next ∧ ReadsBehind shape next values' rest left c := by
  rcases h with ⟨hkey, hafter, hcolon, hvalue, hblanks⟩
  have hbehind := skipBlank_append_cons hblanks (isBlank_behind_member hc) rest
  have hstops := stops_behind_member hblanks hc rest
  rw [readMembers] at hread
  rcases hread.exists_of_bind with ⟨name, named, _, hname, hread⟩
  rcases hkey.reads_iff.mp hname with ⟨hmember, rfl⟩
  rcases hread.exists_of_bind with ⟨next, valued, _, hstored, hread⟩
  rcases stores_of_readMember hshape hafter hcolon hvalue hstops hstored with ⟨hstores, rfl⟩
  rw [<- hmember] at hstores
  rcases reads_bind_iff.mp hread with ⟨behind, hnext, hread⟩
  rw [nextChar_eq hbehind] at hnext
  cases hnext
  dsimp only at hread
  rcases hc with rfl | rfl
  · rw [if_neg (by decide), if_pos rfl] at hread
    rcases reads_bind_iff.mp hread with ⟨⟨q, quoted⟩, hquote, hread⟩
    dsimp only at hread
    split at hread
    · rename_i hq
      rcases hread.exists_of_bind with ⟨all, last, _, hmore, hread⟩
      rcases reads_ok_iff.mp hread with ⟨rfl, rfl⟩
      rw [hq] at hquote
      exact ⟨next, hstores, .more (skipBlank_of_nextChar hquote) hmore⟩
    · exact absurd hread not_reads_error
  · rcases reads_ok_iff.mp hread with ⟨rfl, rfl⟩
    exact ⟨next, hstores, .closed rfl rfl⟩

theorem MemberBefore.reads {next : FieldValues} (hshape : shape.Exact)
    (h : MemberBefore m (c :: rest) cs) (hc : c = ',' ∨ c = '}')
    (hstores : Stores shape values m next)
    (hmore : ReadsBehind shape next values' rest left c) :
    Reads (readMembers shape values cs) values' left := by
  rcases h with ⟨hkey, hafter, hcolon, hvalue, hblanks⟩
  have hbehind := skipBlank_append_cons hblanks (isBlank_behind_member hc) rest
  have hstops := stops_behind_member hblanks hc rest
  rcases hstores.exists_name with ⟨name, hmember⟩
  have hname : m.name = some (String.ofList name) := congrArg Member.name hmember
  rw [hmember] at hstores
  rw [readMembers]
  apply (hkey.reads_iff.mpr ⟨hname, rfl⟩).bind
  intro _
  apply (hstores.reads hshape hafter hcolon hvalue hstops).bind
  intro _
  apply reads_bind_iff.mpr ⟨_, nextChar_eq hbehind, ?_⟩
  dsimp only
  cases hmore with
  | closed hvalues hleft =>
      rw [if_pos rfl]
      exact reads_ok_iff.mpr ⟨hvalues.symm, hleft.symm⟩
  | more hquote hread =>
      rw [if_neg (by decide), if_pos rfl]
      apply reads_bind_iff.mpr ⟨_, nextChar_eq hquote, ?_⟩
      exact hread.bind fun _ => reads_ok_iff.mpr ⟨rfl, rfl⟩

end Steps

/-- What members one after another do to the values that were read before them. -/
inductive Gathers (shape : Shape) : FieldValues -> List Member -> FieldValues -> Prop where
  | nil {values : FieldValues} : Gathers shape values [] values
  | cons {values next values' : FieldValues} {m : Member} {ms : List Member} :
      Stores shape values m next -> Gathers shape next ms values' ->
      Gathers shape values (m :: ms) values'

theorem gathers_of_readMembers {shape : Shape} {values values' : FieldValues} {m : Member}
    {ms : List Member} {t cs rest left : List Char} (hshape : shape.Exact)
    (h : Text (.items .curly (m :: ms)) t) (hcs : skipBlank (t ++ '}' :: rest) = '"' :: cs)
    (hread : Reads (readMembers shape values cs) values' left) :
    Gathers shape values (m :: ms) values' ∧ left = rest := by
  induction ms generalizing m t cs values with
  | nil =>
      cases h with
      | last hitem =>
          rcases (hitem.memberBefore hcs).exists_stores hshape (.inr rfl) hread with
            ⟨next, hstores, hbehind⟩
          cases hbehind with
          | closed hvalues hleft =>
              subst hvalues
              exact ⟨.cons hstores .nil, hleft⟩
  | cons second ms ih =>
      cases h with
      | more hitem hitems =>
          rw [List.append_assoc, List.cons_append] at hcs
          rcases (hitem.memberBefore hcs).exists_stores hshape (.inl rfl) hread with
            ⟨next, hstores, hbehind⟩
          cases hbehind with
          | more hquote hmore =>
              rcases ih hitems hquote hmore with ⟨hgathers, hleft⟩
              exact ⟨.cons hstores hgathers, hleft⟩

theorem Gathers.reads {shape : Shape} {values values' : FieldValues} {m : Member}
    {ms : List Member} {t cs rest : List Char} (hgathers : Gathers shape values (m :: ms) values')
    (hshape : shape.Exact) (h : Text (.items .curly (m :: ms)) t)
    (hcs : skipBlank (t ++ '}' :: rest) = '"' :: cs) :
    Reads (readMembers shape values cs) values' rest := by
  induction ms generalizing m t cs values with
  | nil =>
      cases h with
      | last hitem =>
          cases hgathers with
          | cons hstores hnil =>
              cases hnil
              exact (hitem.memberBefore hcs).reads hshape (.inr rfl) hstores (.closed rfl rfl)
  | cons second ms ih =>
      cases h with
      | more hitem hitems =>
          rw [List.append_assoc, List.cons_append] at hcs
          cases hgathers with
          | cons hstores hgathers =>
              rcases hitems.quoted ('}' :: rest) with ⟨ds, hquote⟩
              have hmore := ih hgathers hitems hquote
              exact (hitem.memberBefore hcs).reads hshape (.inl rfl) hstores (.more hquote hmore)

end Json
end BlockCache
