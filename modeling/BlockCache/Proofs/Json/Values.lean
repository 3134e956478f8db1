import BlockCache.Proofs.Json.Numbers

/-!
# Values

The texts of all values, with blanks wherever they may stand. Skipping works like an automaton
with a stack of open brackets, so what it does with a text is said for every stack and for
everything that may follow the text: it goes on as if the text were not there.
-/

namespace BlockCache
namespace Json

structure Member where
  name : Option String
  value : List Char
deriving DecidableEq, Repr

abbrev Bracket.Item : Bracket -> Type
  | .square => List Char
  | .curly => Member

def Bracket.opening : Bracket -> Char
  | .square => '['
  | .curly => '{'

inductive Part where
  | value
  | item (bracket : Bracket) (item : bracket.Item)
  | items (bracket : Bracket) (items : List bracket.Item)

/-- The texts of values and of their parts. -/
inductive Text : Part -> List Char -> Prop where
  | null : Text .value ['n', 'u', 'l', 'l']
  | yes : Text .value ['t', 'r', 'u', 'e']
  | no : Text .value ['f', 'a', 'l', 's', 'e']
  | number {v : List Char} : NumberText v -> Text .value v
  | string {s : List Char} : StringText s -> Text .value ('"' :: (s ++ ['"']))
  | bracketed {bracket : Bracket} {items : List bracket.Item} {t : List Char} :
      Text (.items bracket items) t ->
      Text .value (bracket.opening :: (t ++ [bracket.closing]))
  | element {v a b : List Char} :
      Blank a -> Text .value v -> Blank b -> Text (.item .square v) (a ++ (v ++ b))
  | member {name : Option String} {key v a b c d : List Char} :
      Blank a -> KeyText name key -> Blank b -> Blank c -> Text .value v -> Blank d ->
      Text (.item .curly ⟨name, v⟩)
        (a ++ '"' :: (key ++ '"' :: (b ++ ':' :: (c ++ (v ++ d)))))
  | none {bracket : Bracket} {b : List Char} : Blank b -> Text (.items bracket []) b
  | last {bracket : Bracket} {item : bracket.Item} {t : List Char} :
      Text (.item bracket item) t -> Text (.items bracket [item]) t
  | more {bracket : Bracket} {item next : bracket.Item} {items : List bracket.Item}
      {t u : List Char} :
      Text (.item bracket item) t -> Text (.items bracket (next :: items)) u ->
      Text (.items bracket (item :: next :: items)) (t ++ ',' :: u)

/-!
# Skipping, step by step
-/

/-- What is left when `expected` and all that the brackets in `opened` hold is skipped. -/
def skipped (expected : Expected) (opened : List Bracket) (cs : List Char) :
    Except Failure (List Char) :=
  (skip expected opened cs).map Subtype.val

section Steps

variable {bracket : Bracket} {opened : List Bracket} {cs rest : List Char}

theorem skipped_nil (cs : List Char) : skipped .separator [] cs = .ok cs := by
  rw [skipped, skip]
  rfl

theorem skipped_comma (h : skipBlank cs = ',' :: rest) :
    skipped .separator (bracket :: opened) cs = skipped bracket.item (bracket :: opened) rest := by
  rw [skipped, skip, nextChar_eq h, skipped]
  simp only [bind, Except.bind, if_pos]
  cases skip bracket.item (bracket :: opened) rest <;> rfl

theorem closing_ne_comma (bracket : Bracket) : bracket.closing ≠ ',' := by
  cases bracket <;> decide

theorem skipped_closing (h : skipBlank cs = bracket.closing :: rest) :
    skipped .separator (bracket :: opened) cs = skipped .separator opened rest := by
  rw [skipped, skip, nextChar_eq h, skipped]
  simp only [bind, Except.bind, if_neg (closing_ne_comma bracket), if_pos]
  cases skip .separator opened rest <;> rfl

theorem isBlank_closing (bracket : Bracket) : isBlank bracket.closing = false := by
  cases bracket <;> decide

theorem skipped_separator_append {blanks : List Char} {c : Char} (h : Blank blanks)
    (hc : c = ',' ∨ c = bracket.closing) (rest : List Char) :
    skipped .separator (bracket :: opened) (blanks ++ c :: rest) =
      skipped .separator (bracket :: opened) (c :: rest) := by
  rcases hc with rfl | rfl
  · have hcomma : isBlank ',' = false := by decide
    rw [skipped_comma (skipBlank_append_cons h hcomma rest),
      skipped_comma (skipBlank_cons hcomma rest)]
  · have hclosing := isBlank_closing bracket
    rw [skipped_closing (skipBlank_append_cons h hclosing rest),
      skipped_closing (skipBlank_cons hclosing rest)]

theorem skipped_member {key name colon : List Char} (h : skipBlank cs = '"' :: key)
    (hkey : Leaves (skipString key) name) (hname : skipBlank name = ':' :: colon) :
    skipped .member opened cs = skipped .value opened colon := by
  rcases hkey with ⟨hle, hkey⟩
  rw [skipped, skip, nextChar_eq h, skipped]
  simp only [bind, Except.bind, if_pos, hkey, readColon_eq hname]
  cases skip .value opened colon <;> rfl

theorem skipped_scalar {c : Char} {scalar : List Char} (h : skipBlank cs = c :: rest)
    (hc : Bracket.ofOpening? c = none) (hscalar : Leaves (skipScalar (c :: rest)) scalar) :
    skipped .value opened cs = skipped .separator opened scalar := by
  rcases hscalar with ⟨hle, hscalar⟩
  rw [skipped, skip, nextChar_eq h, skipped]
  simp only [bind, Except.bind, hc, hscalar]
  cases skip .separator opened scalar <;> rfl

theorem ofOpening?_opening (bracket : Bracket) :
    Bracket.ofOpening? bracket.opening = some bracket := by
  cases bracket <;> rfl

theorem skipped_empty {inside : List Char} (h : skipBlank cs = bracket.opening :: rest)
    (hrest : skipBlank rest = bracket.closing :: inside) :
    skipped .value opened cs = skipped .separator opened inside := by
  rw [skipped, skip, nextChar_eq h, skipped]
  simp only [bind, Except.bind, ofOpening?_opening, nextChar_eq hrest, if_pos]
  cases skip .separator opened inside <;> rfl

theorem skipped_opening {c : Char} {inside : List Char} (h : skipBlank cs = bracket.opening :: rest)
    (hrest : skipBlank rest = c :: inside) (hc : c ≠ bracket.closing) :
    skipped .value opened cs = skipped bracket.item (bracket :: opened) rest := by
  rw [skipped, skip, nextChar_eq h, skipped]
  simp only [bind, Except.bind, ofOpening?_opening, nextChar_eq hrest, if_neg hc]
  cases skip bracket.item (bracket :: opened) rest <;> rfl

end Steps

/-!
# First characters
-/

def isStart (c : Char) : Bool :=
  !isBlank c && c ≠ ',' && c ≠ ']' && c ≠ '}'

theorem isBlank_of_isStart {c : Char} (h : isStart c = true) : isBlank c = false := by
  simp only [isStart, Bool.and_eq_true, Bool.not_eq_true'] at h
  exact h.1.1.1

theorem ne_closing_of_isStart {c : Char} (h : isStart c = true) (bracket : Bracket) :
    c ≠ bracket.closing := by
  intro hc
  subst hc
  cases bracket <;> cases h

theorem ne_of_isDigit {c d : Char} (h : c.isDigit = true) (hd : d.isDigit = false) : c ≠ d := by
  intro hc
  rw [hc, hd] at h
  cases h

theorem isStart_of_isDigit {c : Char} (h : c.isDigit = true) : isStart c = true := by
  have hne : forall d, d.isDigit = false -> c ≠ d := fun _ => ne_of_isDigit h
  simp [isStart, isBlank, hne]

theorem NumberText.exists_start {v : List Char} (h : NumberText v) :
    exists c rest, v = c :: rest ∧ isStart c = true ∧ (c = '-' ∨ c.isDigit = true) := by
  cases h with
  | @mk negative ds fraction exponent hwhole hfraction hexponent =>
      cases negative with
      | true => exact ⟨'-', ds ++ (fraction ++ exponent), rfl, rfl, .inl rfl⟩
      | false =>
          cases ds with
          | nil => exact absurd rfl hwhole.ne_nil
          | cons c ds =>
              have hc : c.isDigit = true := hwhole.isDigit c List.mem_cons_self
              exact ⟨c, ds ++ (fraction ++ exponent), rfl, isStart_of_isDigit hc, .inr hc⟩

theorem Text.value_start {v : List Char} (h : Text .value v) :
    exists c rest, v = c :: rest ∧ isStart c = true := by
  cases h with
  | null | yes | no | string => exact ⟨_, _, rfl, rfl⟩
  | number hnumber =>
      rcases hnumber.exists_start with ⟨c, rest, hv, hc, -⟩
      exact ⟨c, rest, hv, hc⟩
  | @bracketed bracket => cases bracket <;> exact ⟨_, _, rfl, rfl⟩

theorem skipBlank_value {blanks v : List Char} (hblank : Blank blanks) (h : Text .value v)
    (rest : List Char) : skipBlank (blanks ++ (v ++ rest)) = v ++ rest := by
  rcases h.value_start with ⟨c, more, rfl, hc⟩
  exact skipBlank_append_cons hblank (isBlank_of_isStart hc) (more ++ rest)

theorem Text.item_start {bracket : Bracket} {item : bracket.Item} {t : List Char}
    (h : Text (.item bracket item) t) (rest : List Char) :
    exists c more, skipBlank (t ++ rest) = c :: more ∧ isStart c = true := by
  cases h with
  | element ha hvalue hb =>
      rcases hvalue.value_start with ⟨c, more, hv, hc⟩
      rw [List.append_assoc, List.append_assoc, skipBlank_value ha hvalue, hv]
      exact ⟨c, _, rfl, hc⟩
  | member ha =>
      rw [List.append_assoc, List.cons_append, skipBlank_append_cons ha (by decide)]
      exact ⟨'"', _, rfl, rfl⟩

theorem Text.items_start {bracket : Bracket} {item : bracket.Item} {items : List bracket.Item}
    {t : List Char} (h : Text (.items bracket (item :: items)) t) (rest : List Char) :
    exists c more, skipBlank (t ++ rest) = c :: more ∧ isStart c = true := by
  cases h with
  | last hitem => exact hitem.item_start rest
  | more hitem hitems =>
      rw [List.append_assoc]
      exact hitem.item_start _

theorem stops_behind_item {bracket : Bracket} {blanks : List Char} {c : Char}
    (h : Blank blanks) (hc : c = ',' ∨ c = bracket.closing) (rest : List Char) :
    Stops (blanks ++ c :: rest) := by
  apply stops_blank_append h
  rcases hc with rfl | rfl
  · rfl
  · cases bracket <;> rfl

/-!
# Skipping values
-/

/-- Skipping goes over the text. -/
def Skips : Part -> List Char -> Prop
  | .value, v => forall opened cs rest, skipBlank cs = v ++ rest -> Stops rest ->
      skipped .value opened cs = skipped .separator opened rest
  | .item bracket _, t => forall opened c rest, c = ',' ∨ c = bracket.closing ->
      skipped bracket.item (bracket :: opened) (t ++ c :: rest) =
        skipped .separator (bracket :: opened) (c :: rest)
  | .items _ [], t => Blank t
  | .items bracket (_ :: _), t => forall opened rest,
      skipped bracket.item (bracket :: opened) (t ++ bracket.closing :: rest) =
        skipped .separator opened rest

theorem skips_scalar {c : Char} {v : List Char} (hc : Bracket.ofOpening? c = none)
    (h : forall rest, Stops rest -> Leaves (skipScalar (c :: (v ++ rest))) rest) :
    Skips .value (c :: v) := by
  intro opened cs rest hcs hrest
  exact skipped_scalar hcs hc (h rest hrest)

theorem skips_word {c : Char} {word : List Char} (hc : Bracket.ofOpening? c = none)
    (h : forall cs, skipScalar (c :: cs) = do return (<- readWord word cs).cons c) :
    Skips .value (c :: word) := by
  apply skips_scalar hc
  intro rest _
  rcases readWord_iff.mpr (Eq.refl (word ++ rest)) with ⟨hle, hword⟩
  rw [h, hword]
  exact ⟨_, rfl⟩

theorem StringText.skips_quoted {s : List Char} (h : StringText s) :
    Skips .value ('"' :: (s ++ ['"'])) := by
  apply skips_scalar rfl
  intro rest _
  rw [List.append_assoc]
  rcases h.skips rest with ⟨hle, hskip⟩
  have hscalar : skipScalar ('"' :: (s ++ '"' :: rest)) =
      .ok (Rest.cons '"' ⟨rest, hle⟩) := by
    change (do return (<- skipString (s ++ '"' :: rest)).cons '"') = _
    rw [hskip]
    rfl
  exact ⟨_, hscalar⟩

theorem skipScalar_minus {cs rest : List Char} (h : Leaves (skipNumber cs) rest) :
    Leaves (skipScalar ('-' :: cs)) rest := by
  rcases h with ⟨hle, hskip⟩
  have hscalar : skipScalar ('-' :: cs) = .ok (Rest.cons '-' ⟨rest, hle⟩) := by
    change (do return (<- skipNumber cs).cons '-') = _
    rw [hskip]
    rfl
  exact ⟨_, hscalar⟩

theorem skipScalar_digit {c : Char} (h : c.isDigit = true) (cs : List Char) :
    skipScalar (c :: cs) = skipNumber (c :: cs) := by
  rw [skipScalar, if_neg (ne_of_isDigit h rfl), if_neg (ne_of_isDigit h rfl),
    if_neg (ne_of_isDigit h rfl), if_neg (ne_of_isDigit h rfl), if_neg (ne_of_isDigit h rfl),
    if_pos h]

theorem ofOpening?_digit {c : Char} (h : c.isDigit = true) : Bracket.ofOpening? c = none := by
  unfold Bracket.ofOpening?
  split
  · cases h
  · cases h
  · rfl

theorem NumberText.skips {v : List Char} (h : NumberText v) : Skips .value v := by
  cases h with
  | @mk negative ds fraction exponent hwhole hfraction hexponent =>
      have hskip : forall rest, Stops rest ->
          Leaves (skipNumber (ds ++ (fraction ++ exponent) ++ rest)) rest := by
        intro rest hrest
        rw [List.append_assoc, List.append_assoc]
        exact skipNumber_append hwhole hfraction hexponent hrest
      cases negative with
      | true => exact skips_scalar rfl fun rest hrest => skipScalar_minus (hskip rest hrest)
      | false =>
          cases ds with
          | nil => exact absurd rfl hwhole.ne_nil
          | cons c ds =>
              have hc : c.isDigit = true := hwhole.isDigit c List.mem_cons_self
              apply skips_scalar (ofOpening?_digit hc)
              intro rest hrest
              rw [skipScalar_digit hc]
              exact hskip rest hrest

theorem Text.skips {part : Part} {t : List Char} (h : Text part t) : Skips part t := by
  induction h with
  | null => exact skips_word rfl fun _ => rfl
  | yes => exact skips_word rfl fun _ => rfl
  | no => exact skips_word rfl fun _ => rfl
  | number hnumber => exact hnumber.skips
  | string hstring => exact hstring.skips_quoted
  | @bracketed bracket items t h ih =>
      intro opened cs rest hcs hrest
      rw [List.cons_append, List.append_assoc] at hcs
      cases items with
      | nil =>
          exact skipped_empty hcs (skipBlank_append_cons ih (isBlank_closing bracket) rest)
      | cons item items =>
          rcases h.items_start (bracket.closing :: rest) with ⟨c, more, hstart, hc⟩
          rw [skipped_opening hcs hstart (ne_closing_of_isStart hc bracket)]
          exact ih opened rest
  | @element v a b ha hvalue hb ih =>
      intro opened c rest hc
      simp only [List.append_assoc]
      have hstops : Stops (b ++ c :: rest) := stops_behind_item hb hc rest
      rw [<- skipped_separator_append hb hc rest]
      exact ih _ _ _ (skipBlank_value ha hvalue _) hstops
  | @member name key v a b c d ha hkey hb hc hvalue hd ih =>
      intro opened e rest he
      simp only [List.append_assoc, List.cons_append]
      have hstops : Stops (d ++ e :: rest) := stops_behind_item hd he rest
      have hquote : isBlank '"' = false := by decide
      have hcolon : isBlank ':' = false := by decide
      rw [<- skipped_separator_append hd he rest]
      change skipped .member _ _ = _
      rw [skipped_member (skipBlank_append_cons ha hquote _) (hkey.stringText.skips _)
        (skipBlank_append_cons hb hcolon _)]
      exact ih _ _ _ (skipBlank_value hc hvalue _) hstops
  | none hb => exact hb
  | @last bracket item t hitem ih =>
      intro opened rest
      rw [ih opened bracket.closing rest (.inr rfl)]
      exact skipped_closing (skipBlank_cons (isBlank_closing bracket) rest)
  | @more bracket item next items t u hitem hitems ih ihs =>
      intro opened rest
      rw [List.append_assoc, List.cons_append, ih opened ',' _ (.inl rfl),
        skipped_comma (skipBlank_cons rfl _)]
      exact ihs opened rest

theorem Text.skips_value {v cs rest : List Char} (h : Text .value v)
    (hcs : skipBlank cs = v ++ rest) (hrest : Stops rest) : Leaves (skipValue cs) rest := by
  have hskipped : skipped .value [] cs = .ok rest := by
    rw [h.skips [] cs rest hcs hrest, skipped_nil]
  rcases exists_of_map_eq_ok hskipped with ⟨left, hleft, rfl⟩
  exact ⟨left.property, hleft⟩

/-!
# Integers among the values
-/

theorem numberText_writeInteger (n : Int) : NumberText (writeInteger n) := by
  rw [writeInteger_eq, <- List.append_nil (Nat.toDigits 10 n.natAbs)]
  exact .mk _ (wholeText_toDigits n.natAbs) .absent .absent

/-- An integer is read from its own text, and from no other value. -/
theorem Text.readInteger_iff {range : IntRange} {cs v rest left : List Char} {n : Int}
    (hrange : range.Exact) (h : Text .value v) (hcs : skipBlank cs = v ++ rest)
    (hrest : Stops rest) :
    Reads (readInteger range cs) n left <-> v = writeInteger n ∧ range.Holds n ∧ left = rest := by
  constructor
  · intro hread
    cases h with
    | number hnumber => exact hnumber.eq_of_readInteger hcs hrest hread
    | null | yes | no | string => exact absurd hread (not_reads_integer hcs (by decide) rfl)
    | @bracketed bracket =>
        cases bracket <;> exact absurd hread (not_reads_integer hcs (by decide) rfl)
  · intro ⟨hv, hholds, hleft⟩
    subst hv hleft
    exact readInteger_writeInteger hrange hholds hcs hrest

end Json
end BlockCache
