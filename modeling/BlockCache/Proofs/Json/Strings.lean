import BlockCache.Json.Text
import BlockCache.Proofs.Completion
import Mathlib.Data.List.Induction
import Mathlib.Data.List.TakeWhile

/-!
# Blanks and strings

What the texts between tokens and between quotes are, apart from any reader, and what the
readers make of them. The text of a string is determined by where it begins, so a reader
that accepts it has to end where it ends.
-/

namespace BlockCache
namespace Json

def Reads {α : Type} {cs : List Char} (read : Except Failure (α × Rest cs)) (a : α)
    (rest : List Char) : Prop :=
  exists h, read = .ok (a, ⟨rest, h⟩)

def Leaves {cs : List Char} (skipped : Except Failure (Rest cs)) (rest : List Char) : Prop :=
  exists h, skipped = .ok ⟨rest, h⟩

theorem Reads.of_eq {α : Type} {cs : List Char} {read : Except Failure (α × Rest cs)} {a : α}
    {rest : Rest cs} (h : read = .ok (a, rest)) : Reads read a rest.val :=
  ⟨rest.property, h⟩

theorem Reads.unique {α : Type} {cs : List Char} {read : Except Failure (α × Rest cs)} {a b : α}
    {rest rest' : List Char} (h : Reads read a rest) (h' : Reads read b rest') :
    a = b ∧ rest = rest' := by
  rcases h with ⟨_, h⟩
  rcases h' with ⟨_, h'⟩
  rw [h] at h'
  cases h'
  exact ⟨rfl, rfl⟩

theorem reads_ok_iff {α : Type} {cs : List Char} {a b : α} {left : Rest cs} {rest : List Char} :
    Reads (Except.ok (a, left)) b rest <-> a = b ∧ left.val = rest := by
  constructor
  · intro ⟨_, h⟩
    cases h
    exact ⟨rfl, rfl⟩
  · intro ⟨ha, hrest⟩
    subst ha hrest
    exact .of_eq rfl

theorem not_reads_error {α : Type} {cs rest : List Char} {failure : Failure} {b : α} :
    ¬ Reads (.error failure : Except Failure (α × Rest cs)) b rest := by
  intro ⟨_, h⟩
  cases h

section Binds

variable {α β : Type} {cs ds : List Char} {b : β} {rest : List Char}

theorem reads_bind_iff {x : Except Failure α} {f : α -> Except Failure (β × Rest cs)} :
    Reads (x >>= f) b rest <-> exists a, x = .ok a ∧ Reads (f a) b rest := by
  constructor
  · intro ⟨hle, h⟩
    rcases exists_of_bind_eq_ok h with ⟨a, hx, hf⟩
    exact ⟨a, hx, hle, hf⟩
  · intro ⟨a, hx, hf⟩
    rw [hx]
    exact hf

theorem Reads.exists_of_bind {x : Except Failure (α × Rest ds)}
    {f : α × Rest ds -> Except Failure (β × Rest cs)} (h : Reads (x >>= f) b rest) :
    exists (a : α) (left : List Char) (hle : left.length <= ds.length),
      Reads x a left ∧ Reads (f (a, ⟨left, hle⟩)) b rest := by
  rcases reads_bind_iff.mp h with ⟨⟨a, left⟩, hx, hf⟩
  exact ⟨a, left.val, left.property, .of_eq hx, hf⟩

theorem Reads.bind {x : Except Failure (α × Rest ds)}
    {f : α × Rest ds -> Except Failure (β × Rest cs)} {a : α} {left : List Char}
    (hx : Reads x a left) (hf : forall hle, Reads (f (a, ⟨left, hle⟩)) b rest) :
    Reads (x >>= f) b rest := by
  rcases hx with ⟨hle, rfl⟩
  exact hf hle

theorem Leaves.exists_of_bind {x : Except Failure (Rest ds)}
    {f : Rest ds -> Except Failure (β × Rest cs)} (h : Reads (x >>= f) b rest) :
    exists (left : List Char) (hle : left.length <= ds.length),
      Leaves x left ∧ Reads (f ⟨left, hle⟩) b rest := by
  rcases reads_bind_iff.mp h with ⟨left, hx, hf⟩
  exact ⟨left.val, left.property, ⟨left.property, hx⟩, hf⟩

theorem Leaves.bind {x : Except Failure (Rest ds)}
    {f : Rest ds -> Except Failure (β × Rest cs)} {left : List Char} (hx : Leaves x left)
    (hf : forall hle, Reads (f ⟨left, hle⟩) b rest) : Reads (x >>= f) b rest := by
  rcases hx with ⟨hle, rfl⟩
  exact hf hle

end Binds

/-!
# Blanks
-/

def Blank (cs : List Char) : Prop :=
  forall c, c ∈ cs -> isBlank c = true

instance (cs : List Char) : Decidable (Blank cs) :=
  List.decidableBAll (fun c => isBlank c = true) cs

theorem blank_nil : Blank [] := by
  intro c hc
  cases hc

theorem blank_iff {cs : List Char} : Blank cs <-> (skipBlank cs).isEmpty = true := by
  rw [List.isEmpty_iff]
  exact List.dropWhile_eq_nil_iff.symm

theorem skipBlank_append {blanks : List Char} (h : Blank blanks) (cs : List Char) :
    skipBlank (blanks ++ cs) = skipBlank cs := by
  induction blanks with
  | nil => rfl
  | cons c blanks ih =>
      have hc : isBlank c = true := h c List.mem_cons_self
      rw [List.cons_append, skipBlank, List.dropWhile_cons_of_pos hc]
      exact ih fun d hd => h d (List.mem_cons_of_mem c hd)

theorem skipBlank_cons {c : Char} (h : isBlank c = false) (cs : List Char) :
    skipBlank (c :: cs) = c :: cs :=
  List.dropWhile_cons_of_neg (Bool.eq_false_iff.mp h)

theorem skipBlank_append_cons {blanks : List Char} {c : Char} (h : Blank blanks)
    (hc : isBlank c = false) (cs : List Char) : skipBlank (blanks ++ c :: cs) = c :: cs := by
  rw [skipBlank_append h, skipBlank_cons hc]

theorem nextChar_eq {cs rest : List Char} {c : Char} (h : skipBlank cs = c :: rest) :
    nextChar cs = .ok (c, ⟨rest, length_lt_of_skipBlank h⟩) := by
  unfold nextChar
  split
  · rename_i hnil
    rw [hnil] at h
    cases h
  · rename_i hcons
    rw [hcons] at h
    cases h
    rfl

theorem skipBlank_of_nextChar {cs : List Char} {c : Char} {rest : ShorterRest cs}
    (h : nextChar cs = .ok (c, rest)) : skipBlank cs = c :: rest.val := by
  cases hskip : skipBlank cs with
  | nil =>
      unfold nextChar at h
      split at h
      · cases h
      · rename_i hcons
        rw [hcons] at hskip
        cases hskip
  | cons d ds =>
      rw [nextChar_eq hskip] at h
      cases h
      rfl

theorem readColon_eq {cs rest : List Char} (h : skipBlank cs = ':' :: rest) :
    readColon cs = .ok ⟨rest, length_lt_of_skipBlank h⟩ := by
  rw [readColon, nextChar_eq h]
  rfl

/-!
# Texts of strings
-/

def isPlain (c : Char) : Bool :=
  c ≠ '"' && c ≠ '\\' && !isControl c

def HexText (n : Nat) (hex : List Char) : Prop :=
  hex.length = 4 ∧ hexValue? hex = some n

inductive EscapeText : List Char -> Prop where
  | letter {e d : Char} : escaped? e = some d -> EscapeText [e]
  | unicode {n : Nat} {hex : List Char} : HexText n hex -> EscapeText ('u' :: hex)

inductive StringText : List Char -> Prop where
  | nil : StringText []
  | plain {c : Char} {cs : List Char} : isPlain c = true -> StringText cs -> StringText (c :: cs)
  | escape {e cs : List Char} : EscapeText e -> StringText cs -> StringText ('\\' :: (e ++ cs))

/--
`Escape d e`: behind a backslash, `e` stands for `d`. A character beyond the first plane is
written as two numbers, neither of which stands for a character alone.
-/
inductive Escape : Char -> List Char -> Prop where
  | letter {e d : Char} : escaped? e = some d -> Escape d [e]
  | unicode {n : Nat} {hex : List Char} :
      HexText n hex -> isLeadSurrogate n = false -> isTrailSurrogate n = false ->
      Escape (Char.ofNat n) ('u' :: hex)
  | pair {m n : Nat} {lead trail : List Char} :
      HexText m lead -> HexText n trail -> isLeadSurrogate m = true ->
      isTrailSurrogate n = true ->
      Escape (ofSurrogates m n) ('u' :: (lead ++ '\\' :: 'u' :: trail))

/-- `Spells s cs`: between quotes, `cs` stands for `s`. -/
inductive Spells : List Char -> List Char -> Prop where
  | nil : Spells [] []
  | plain {c : Char} {s cs : List Char} :
      isPlain c = true -> Spells s cs -> Spells (c :: s) (c :: cs)
  | escape {d : Char} {e s cs : List Char} :
      Escape d e -> Spells s cs -> Spells (d :: s) ('\\' :: (e ++ cs))

theorem Spells.stringText {s cs : List Char} (h : Spells s cs) : StringText cs := by
  induction h with
  | nil => exact .nil
  | plain hc _ ih => exact .plain hc ih
  | escape he _ ih =>
      cases he with
      | letter hletter => exact .escape (.letter hletter) ih
      | unicode hhex => exact .escape (.unicode hhex) ih
      | pair hlead htrail =>
          simp only [List.cons_append, List.append_assoc]
          exact .escape (.unicode hlead) (.escape (.unicode htrail) ih)

theorem spells_self {s : List Char} (h : s.all isPlain = true) : Spells s s := by
  induction s with
  | nil => exact .nil
  | cons c s ih =>
      rw [List.all_cons, Bool.and_eq_true] at h
      exact .plain h.1 (ih h.2)

theorem isPlain_iff {c : Char} :
    isPlain c = true <-> c ≠ '"' ∧ c ≠ '\\' ∧ isControl c = false := by
  simp only [isPlain, Bool.and_eq_true, decide_eq_true_eq, Bool.not_eq_true', and_assoc]

theorem ne_of_escaped? {e d : Char} (h : escaped? e = some d) : e ≠ 'u' := by
  intro he
  rw [he] at h
  cases h

theorem EscapeText.unique {e e' r r' : List Char} (h : EscapeText e) (h' : EscapeText e')
    (heq : e ++ r = e' ++ r') : e = e' ∧ r = r' := by
  cases h with
  | letter he =>
      cases h' with
      | letter =>
          rcases List.cons.inj heq with ⟨rfl, rfl⟩
          exact ⟨rfl, rfl⟩
      | unicode => exact absurd (List.cons.inj heq).1 (ne_of_escaped? he)
  | unicode hhex =>
      cases h' with
      | letter he => exact absurd (List.cons.inj heq).1.symm (ne_of_escaped? he)
      | unicode hhex' =>
          rcases List.append_inj (List.cons.inj heq).2 (hhex.1.trans hhex'.1.symm) with
            ⟨rfl, rfl⟩
          exact ⟨rfl, rfl⟩

theorem StringText.unique {k k' r r' : List Char} (h : StringText k) (h' : StringText k')
    (heq : k ++ '"' :: r = k' ++ '"' :: r') : k = k' ∧ r = r' := by
  induction h generalizing k' with
  | nil =>
      cases h' with
      | nil => exact ⟨rfl, (List.cons.inj heq).2⟩
      | plain hc _ => exact absurd (List.cons.inj heq).1.symm (isPlain_iff.mp hc).1
      | escape => exact absurd (List.cons.inj heq).1 (by decide)
  | plain hc _ ih =>
      cases h' with
      | nil => exact absurd (List.cons.inj heq).1 (isPlain_iff.mp hc).1
      | plain _ hcs =>
          rcases List.cons.inj heq with ⟨rfl, hrest⟩
          rcases ih hcs hrest with ⟨rfl, rfl⟩
          exact ⟨rfl, rfl⟩
      | escape => exact absurd (List.cons.inj heq).1 (isPlain_iff.mp hc).2.1
  | escape he _ ih =>
      cases h' with
      | nil => exact absurd (List.cons.inj heq).1 (by decide)
      | plain hc _ => exact absurd (List.cons.inj heq).1.symm (isPlain_iff.mp hc).2.1
      | escape he' hcs =>
          simp only [List.cons_append, List.append_assoc, List.cons.injEq, true_and] at heq
          rcases he.unique he' heq with ⟨rfl, hrest⟩
          rcases ih hcs hrest with ⟨rfl, rfl⟩
          exact ⟨rfl, rfl⟩

/-!
# Hexadecimal digits
-/

theorem length_le_byteLength (cs : List Char) : cs.length <= byteLength cs := by
  have hfrom : forall n, n + cs.length <= cs.foldl (fun length c => length + c.utf8Size) n := by
    induction cs with
    | nil => exact fun n => Nat.le_refl n
    | cons c cs ih =>
        intro n
        have hpos : 0 < c.utf8Size := c.utf8Size_pos
        have hrest := ih (n + c.utf8Size)
        rw [List.foldl_cons, List.length_cons]
        omega
  have hstart := hfrom 0
  rwa [Nat.zero_add] at hstart

theorem utf8Size_of_hexDigit? {c : Char} {n : Nat} (h : hexDigit? c = some n) :
    c.utf8Size = 1 := by
  have hsmall : c.val <= 0x7f := by
    unfold hexDigit? at h
    split at h
    · rename_i hc
      exact UInt32.le_trans hc.2 (by decide)
    · split at h
      · rename_i hc
        exact UInt32.le_trans hc.2 (by decide)
      · split at h
        · rename_i hc
          exact UInt32.le_trans hc.2 (by decide)
        · cases h
  exact if_pos hsmall

theorem hexValue?_append_singleton (hex : List Char) (c : Char) :
    hexValue? (hex ++ [c]) =
      (hexValue? hex).bind fun value => (hexDigit? c).map fun digit => value * 16 + digit := by
  rw [hexValue?, List.foldl_append, <- hexValue?, List.foldl_cons, List.foldl_nil]
  cases hexValue? hex <;> cases hexDigit? c <;> rfl

theorem byteLength_of_hexValue? {hex : List Char} {n : Nat} (h : hexValue? hex = some n) :
    byteLength hex = hex.length := by
  induction hex using List.reverseRecOn generalizing n with
  | nil => rfl
  | append_singleton hex c ih =>
      rw [hexValue?_append_singleton, Option.bind_eq_some_iff] at h
      rcases h with ⟨value, hvalue, hdigit⟩
      rcases Option.map_eq_some_iff.mp hdigit with ⟨digit, hdigit, -⟩
      rw [byteLength, List.foldl_append, <- byteLength, ih hvalue, List.length_append]
      exact congrArg (hex.length + ·) (utf8Size_of_hexDigit? hdigit)

theorem readHex_iff {cs rest : List Char} {n : Nat} :
    Reads (readHex cs) n rest <-> exists hex, HexText n hex ∧ cs = hex ++ rest := by
  constructor
  · intro ⟨_, h⟩
    simp only [readHex] at h
    split at h
    · cases h
    · rename_i hlong
      split at h
      · rename_i m hvalue
        cases h
        refine ⟨cs.take 4, ⟨?_, hvalue⟩, (List.take_append_drop 4 cs).symm⟩
        rw [byteLength_of_hexValue? hvalue, List.length_take] at hlong
        rw [List.length_take]
        omega
      · cases h
  · intro ⟨hex, h, hcs⟩
    subst hcs
    have htake : (hex ++ rest).take 4 = hex := by rw [<- h.1, List.take_left]
    have hdrop : (hex ++ rest).drop 4 = rest := by rw [<- h.1, List.drop_left]
    have hlong : ¬ byteLength hex < 4 := by
      have hle := length_le_byteLength hex
      have hfour := h.1
      omega
    refine ⟨by rw [List.length_append]; omega, ?_⟩
    simp only [readHex, htake, if_neg hlong, h.2, hdrop]

/-!
# Reading strings
-/

theorem readWord_iff {word cs rest : List Char} :
    Leaves (readWord word cs) rest <-> cs = word ++ rest := by
  induction word generalizing cs with
  | nil =>
      constructor
      · intro ⟨_, h⟩
        cases h
        rfl
      · intro hcs
        subst hcs
        exact ⟨Nat.le_refl _, rfl⟩
  | cons w word ih =>
      constructor
      · intro ⟨_, h⟩
        cases cs with
        | nil => cases h
        | cons c cs =>
            rw [readWord] at h
            split at h
            · rename_i hc
              rcases exists_of_map_eq_ok h with ⟨⟨left, hle⟩, hleft, hrest⟩
              cases hrest
              have hcs : cs = word ++ left := ih.mp ⟨hle, hleft⟩
              change c :: cs = w :: (word ++ left)
              rw [hc, hcs]
            · cases h
      · intro hcs
        subst hcs
        rcases ih.mpr rfl with ⟨hle, hread⟩
        refine ⟨Nat.le_succ_of_le hle, ?_⟩
        simp only [List.cons_append, readWord, if_pos, hread]
        rfl

theorem exists_escape_of_readUnicode {cs rest : List Char} {d : Char}
    (h : Reads (readUnicode cs) d rest) : exists e, Escape d ('u' :: e) ∧ cs = e ++ rest := by
  rcases h.exists_of_bind with ⟨m, left, _, hlead, h⟩
  rcases readHex_iff.mp hlead with ⟨lead, hm, rfl⟩
  dsimp only at h
  split at h
  · exact absurd h not_reads_error
  · rename_i htrail
    split at h
    · rename_i hsurrogate
      rcases Leaves.exists_of_bind h with ⟨marked, _, hmarker, h⟩
      rcases readWord_iff.mp hmarker with rfl
      rcases h.exists_of_bind with ⟨n, last, _, htrailing, h⟩
      rcases readHex_iff.mp htrailing with ⟨trail, hn, rfl⟩
      dsimp only at h
      split at h
      · rename_i hpair
        rcases reads_ok_iff.mp h with ⟨rfl, rfl⟩
        refine ⟨_, .pair hm hn hsurrogate hpair, ?_⟩
        simp only [List.append_assoc, List.cons_append, List.nil_append]
        rfl
      · exact absurd h not_reads_error
    · rename_i hsurrogate
      rcases reads_ok_iff.mp h with ⟨rfl, rfl⟩
      exact ⟨lead, .unicode hm (Bool.eq_false_iff.mpr hsurrogate)
        (Bool.eq_false_iff.mpr htrail), rfl⟩

theorem isTrailSurrogate_of_lead {n : Nat} (h : isLeadSurrogate n = true) :
    isTrailSurrogate n = false := by
  simp only [isLeadSurrogate, isTrailSurrogate, Bool.and_eq_true, decide_eq_true_eq,
    Bool.and_eq_false_iff, decide_eq_false_iff_not] at h ⊢
  omega

theorem Escape.reads_unicode {d : Char} {e : List Char} (h : Escape d ('u' :: e))
    (rest : List Char) : Reads (readUnicode (e ++ rest)) d rest := by
  cases h with
  | letter hletter => exact absurd rfl (ne_of_escaped? hletter)
  | unicode hhex hlead htrail =>
      apply (readHex_iff.mpr ⟨e, hhex, rfl⟩).bind
      intro _
      simp only [hlead, htrail, Bool.false_eq_true, if_false]
      exact reads_ok_iff.mpr ⟨rfl, rfl⟩
  | @pair m n lead trail hm hn hlead htrail =>
      have hmarker : Leaves (readWord ['\\', 'u'] ('\\' :: 'u' :: (trail ++ rest)))
          (trail ++ rest) :=
        readWord_iff.mpr rfl
      apply (readHex_iff.mpr ⟨lead, hm, List.append_assoc _ _ _⟩).bind
      intro _
      simp only [hlead, isTrailSurrogate_of_lead hlead, Bool.false_eq_true, if_false, if_true]
      apply hmarker.bind
      intro _
      apply (readHex_iff.mpr ⟨trail, hn, rfl⟩).bind
      intro _
      simp only [htrail, if_true]
      exact reads_ok_iff.mpr ⟨rfl, rfl⟩

theorem readEscape_iff {cs rest : List Char} {d : Char} :
    Reads (readEscape cs) d rest <-> exists e, Escape d e ∧ cs = e ++ rest := by
  constructor
  · intro h
    unfold readEscape at h
    split at h
    · exact absurd h not_reads_error
    · rcases h.exists_of_bind with ⟨c, left, _, hunicode, h⟩
      rcases exists_escape_of_readUnicode hunicode with ⟨e, he, rfl⟩
      rcases reads_ok_iff.mp h with ⟨rfl, rfl⟩
      exact ⟨'u' :: e, he, rfl⟩
    · split at h
      · rename_i hletter
        rcases reads_ok_iff.mp h with ⟨rfl, rfl⟩
        exact ⟨_, .letter hletter, rfl⟩
      · exact absurd h not_reads_error
  · intro ⟨e, he, hcs⟩
    subst hcs
    have hunicode : forall e, Escape d ('u' :: e) ->
        Reads (readEscape ('u' :: e ++ rest)) d rest := by
      intro e he
      exact (he.reads_unicode rest).bind fun _ => reads_ok_iff.mpr ⟨rfl, rfl⟩
    cases he with
    | letter hletter =>
        rename_i c
        have hread : readEscape (c :: rest) = .ok (d, (Rest.whole rest).cons c) := by
          rw [readEscape, hletter]
          exact ne_of_escaped? hletter
        exact .of_eq hread
    | unicode hhex hlead htrail => exact hunicode _ (.unicode hhex hlead htrail)
    | pair hm hn hlead htrail => exact hunicode _ (.pair hm hn hlead htrail)

theorem exists_spells_of_readString {cs s rest : List Char} (h : Reads (readString cs) s rest) :
    exists key, Spells s key ∧ cs = key ++ '"' :: rest := by
  -- On the length: what an escape leaves is shorter, but no tail of the definition's own.
  induction hn : cs.length using Nat.strong_induction_on generalizing cs s rest with
  | _ n ih =>
      rw [readString.eq_def] at h
      split at h
      · exact absurd h not_reads_error
      · rename_i c cs
        split at h
        · rename_i hc
          rcases reads_ok_iff.mp h with ⟨rfl, rfl⟩
          exact ⟨[], .nil, by rw [hc]; rfl⟩
        · rename_i hquote
          split at h
          · rename_i hc
            rcases h.exists_of_bind with ⟨d, left, hle, hescape, h⟩
            rcases readEscape_iff.mp hescape with ⟨e, he, rfl⟩
            rcases h.exists_of_bind with ⟨ds, last, _, hmore, h⟩
            rcases reads_ok_iff.mp h with ⟨rfl, rfl⟩
            rcases ih left.length (by rw [<- hn, List.length_cons]; omega) hmore rfl with
              ⟨key, hkey, rfl⟩
            refine ⟨_, .escape he hkey, ?_⟩
            simp only [hc, List.cons_append, List.append_assoc]
            rfl
          · rename_i hslash
            split at h
            · exact absurd h not_reads_error
            · rename_i hcontrol
              rcases h.exists_of_bind with ⟨ds, last, _, hmore, h⟩
              rcases reads_ok_iff.mp h with ⟨rfl, rfl⟩
              rcases ih cs.length (by rw [<- hn, List.length_cons]; omega) hmore rfl with
                ⟨key, hkey, rfl⟩
              have hplain : isPlain c = true :=
                isPlain_iff.mpr ⟨hquote, hslash, Bool.eq_false_iff.mpr hcontrol⟩
              exact ⟨_, .plain hplain hkey, rfl⟩

theorem Spells.reads {s key : List Char} (h : Spells s key) (rest : List Char) :
    Reads (readString (key ++ '"' :: rest)) s rest := by
  induction h with
  | nil =>
      rw [List.nil_append, readString, if_pos rfl]
      exact reads_ok_iff.mpr ⟨rfl, rfl⟩
  | plain hc _ ih =>
      rcases isPlain_iff.mp hc with ⟨hquote, hslash, hcontrol⟩
      rw [List.cons_append, readString, if_neg hquote, if_neg hslash, hcontrol]
      exact ih.bind fun _ => reads_ok_iff.mpr ⟨rfl, rfl⟩
  | escape he _ ih =>
      rw [List.cons_append, readString, if_neg (by decide), if_pos rfl, List.append_assoc]
      apply (readEscape_iff.mpr ⟨_, he, rfl⟩).bind
      intro _
      exact ih.bind fun _ => reads_ok_iff.mpr ⟨rfl, rfl⟩

theorem Spells.unique {s s' key : List Char} (h : Spells s key) (h' : Spells s' key) : s = s' := by
  exact (Reads.unique (h.reads []) (h'.reads [])).1

/-!
# Skipping strings
-/

theorem EscapeText.skips {e : List Char} (h : EscapeText e) (rest : List Char) :
    Leaves (skipEscape (e ++ rest)) rest := by
  cases h with
  | letter hletter =>
      rename_i c d
      have hskip : skipEscape (c :: rest) = .ok ((Rest.whole rest).cons c) := by
        rw [skipEscape, hletter]
        exact ne_of_escaped? hletter
      exact ⟨_, hskip⟩
  | unicode hhex =>
      rcases readHex_iff.mpr ⟨_, hhex, rfl⟩ with ⟨hle, hread⟩
      refine ⟨Nat.le_succ_of_le hle, ?_⟩
      simp only [List.cons_append, skipEscape, hread]
      rfl

theorem StringText.skips {key : List Char} (h : StringText key) (rest : List Char) :
    Leaves (skipString (key ++ '"' :: rest)) rest := by
  induction h with
  | nil =>
      rw [List.nil_append, skipString, if_pos rfl]
      exact ⟨_, rfl⟩
  | plain hc _ ih =>
      rcases isPlain_iff.mp hc with ⟨hquote, hslash, hcontrol⟩
      rcases ih with ⟨hle, hskip⟩
      rw [List.cons_append, skipString, if_neg hquote, if_neg hslash, hcontrol, hskip]
      exact ⟨Nat.le_succ_of_le hle, rfl⟩
  | @escape e key he _ ih =>
      rcases he.skips (key ++ '"' :: rest) with ⟨hle, hescape⟩
      rcases ih with ⟨hle', hskip⟩
      rw [List.cons_append, skipString, if_neg (by decide), if_pos rfl, List.append_assoc, hescape]
      refine ⟨Nat.le_succ_of_le (Nat.le_trans hle' hle), ?_⟩
      simp only [bind, Except.bind, hskip]
      rfl

/-!
# Keys
-/

/-- The text of a key between its quotes, with the name that it stands for, if any. -/
inductive KeyText : Option String -> List Char -> Prop where
  | named {name : String} {key : List Char} : Spells name.toList key -> KeyText (some name) key
  | nameless {key : List Char} :
      StringText key -> (forall s, ¬ Spells s key) -> KeyText none key

theorem KeyText.stringText {name : Option String} {key : List Char} (h : KeyText name key) :
    StringText key := by
  cases h with
  | named hkey => exact hkey.stringText
  | nameless hkey => exact hkey

theorem KeyText.reads_iff {name : Option String} {key s rest left : List Char}
    (h : KeyText name key) :
    Reads (readString (key ++ '"' :: rest)) s left <->
      name = some (String.ofList s) ∧ left = rest := by
  constructor
  · intro hread
    rcases exists_spells_of_readString hread with ⟨key', hkey', heq⟩
    rcases h.stringText.unique hkey'.stringText heq with ⟨rfl, rfl⟩
    cases h with
    | named hkey =>
        rw [<- hkey.unique hkey', String.ofList_toList]
        exact ⟨rfl, rfl⟩
    | nameless _ hnone => exact absurd hkey' (hnone s)
  · intro ⟨hname, hleft⟩
    subst hname hleft
    cases h with
    | named hkey =>
        rw [String.toList_ofList] at hkey
        exact hkey.reads left

end Json
end BlockCache
