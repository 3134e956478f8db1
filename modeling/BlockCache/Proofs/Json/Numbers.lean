import BlockCache.Json.Record
import BlockCache.Proofs.Json.Strings

/-!
# Numbers

The texts of numbers, and what is made of them: any of them can be skipped, and an integer is
read from its decimal digits and from no other text. A number has no end of its own, so what
is said of its text holds where the text behind it does not go on with it.
-/

namespace BlockCache
namespace Json

structure Digits (ds : List Char) : Prop where
  ne_nil : ds ≠ []
  isDigit : forall c, c ∈ ds -> c.isDigit = true

/-- Digits without a leading zero, unless it is the only one. -/
structure WholeText (ds : List Char) : Prop extends Digits ds where
  zero_alone : forall more, ds = '0' :: more -> more = []

inductive FractionText : List Char -> Prop where
  | absent : FractionText []
  | present {ds : List Char} : Digits ds -> FractionText ('.' :: ds)

inductive ExponentText : List Char -> Prop where
  | absent : ExponentText []
  | present {e : Char} {sign ds : List Char} :
      e = 'e' ∨ e = 'E' -> sign = [] ∨ sign = ['+'] ∨ sign = ['-'] -> Digits ds ->
      ExponentText (e :: (sign ++ ds))

def signText (negative : Bool) : List Char :=
  if negative then ['-'] else []

inductive NumberText : List Char -> Prop where
  | mk (negative : Bool) {whole fraction exponent : List Char} :
      WholeText whole -> FractionText fraction -> ExponentText exponent ->
      NumberText (signText negative ++ (whole ++ (fraction ++ exponent)))

def isStop (c : Char) : Bool :=
  !c.isDigit && c ≠ '.' && c ≠ 'e' && c ≠ 'E'

def Stops (rest : List Char) : Prop :=
  rest.head?.all isStop = true

def NoDigit (rest : List Char) : Prop :=
  rest.head?.all (fun c => !c.isDigit) = true

theorem isStop_of_isBlank {c : Char} (h : isBlank c = true) : isStop c = true := by
  simp only [isBlank, Bool.or_eq_true, decide_eq_true_eq] at h
  rcases h with ((rfl | rfl) | rfl) | rfl <;> rfl

theorem stops_blank_append {blanks rest : List Char} (h : Blank blanks) (hrest : Stops rest) :
    Stops (blanks ++ rest) := by
  cases blanks with
  | nil => exact hrest
  | cons c blanks => exact isStop_of_isBlank (h c List.mem_cons_self)

theorem Stops.noDigit {rest : List Char} (h : Stops rest) : NoDigit rest := by
  cases rest with
  | nil => rfl
  | cons c cs =>
      have hc : isStop c = true := h
      simp only [isStop, Bool.and_eq_true] at hc
      exact hc.1.1.1

/-!
# Reading digits
-/

theorem readDigits_append {ds rest : List Char} (hds : forall c, c ∈ ds -> c.isDigit = true)
    (hrest : NoDigit rest) :
    readDigits (ds ++ rest) = (ds, ⟨rest, by rw [List.length_append]; omega⟩) := by
  have htake : rest.takeWhile Char.isDigit = [] ∧ rest.dropWhile Char.isDigit = rest := by
    cases rest with
    | nil => exact ⟨rfl, rfl⟩
    | cons c cs =>
        have hc : (!c.isDigit) = true := hrest
        have hc : ¬ c.isDigit = true := by simpa using hc
        exact ⟨List.takeWhile_cons_of_neg hc, List.dropWhile_cons_of_neg hc⟩
  simp only [readDigits, List.takeWhile_append_of_pos hds, List.dropWhile_append_of_pos hds, htake,
    List.append_nil]

theorem Digits.skips {ds rest : List Char} (h : Digits ds) (hrest : NoDigit rest) :
    Leaves (skipSomeDigits (ds ++ rest)) rest := by
  unfold skipSomeDigits
  rw [readDigits_append h.isDigit hrest]
  cases ds with
  | nil => exact absurd rfl h.ne_nil
  | cons c ds => exact ⟨_, rfl⟩

theorem Digits.reads {ds rest : List Char} (h : Digits ds) (hrest : NoDigit rest) :
    Reads (readSomeDigits (ds ++ rest)) ds rest := by
  unfold readSomeDigits
  rw [readDigits_append h.isDigit hrest]
  cases ds with
  | nil => exact absurd rfl h.ne_nil
  | cons c ds => exact ⟨_, rfl⟩

/-!
# Skipping numbers
-/

theorem ExponentText.noDigit {exponent rest : List Char} (h : ExponentText exponent)
    (hrest : Stops rest) : NoDigit (exponent ++ rest) := by
  cases h with
  | absent => exact hrest.noDigit
  | present he hsign hds => rcases he with rfl | rfl <;> rfl

theorem FractionText.noDigit {fraction rest : List Char} (h : FractionText fraction)
    (hrest : NoDigit rest) : NoDigit (fraction ++ rest) := by
  cases h with
  | absent => exact hrest
  | present hds => rfl

theorem readExponentSign_append {sign ds : List Char} (rest : List Char)
    (hsign : sign = [] ∨ sign = ['+'] ∨ sign = ['-']) (hds : Digits ds) :
    (readExponentSign (sign ++ (ds ++ rest))).2.val = ds ++ rest := by
  rcases hsign with rfl | rfl | rfl
  · cases ds with
    | nil => exact absurd rfl hds.ne_nil
    | cons c ds =>
        have hc : c.isDigit = true := hds.isDigit c List.mem_cons_self
        rw [List.nil_append, List.cons_append, readExponentSign.eq_3]
        · rfl
        · intro cs heq
          cases heq
          cases hc
        · intro cs heq
          cases heq
          cases hc
  · rfl
  · rfl

theorem ExponentText.skips {exponent rest : List Char} (h : ExponentText exponent)
    (hrest : Stops rest) : Leaves (skipExponent (exponent ++ rest)) rest := by
  cases h with
  | absent =>
      rw [List.nil_append]
      unfold skipExponent
      split
      · cases hrest
      · cases hrest
      · exact ⟨_, rfl⟩
  | @present e sign ds he hsign hds =>
      have hstart := readExponentSign_append rest hsign hds
      have hskip :
          Leaves (skipSomeDigits (readExponentSign (sign ++ (ds ++ rest))).2.val) rest := by
        rw [hstart]
        exact hds.skips hrest.noDigit
      rcases hskip with ⟨hle, hskip⟩
      rw [List.cons_append, List.append_assoc]
      rcases he with rfl | rfl
      all_goals
        simp only [skipExponent, hskip]
        exact ⟨_, rfl⟩

theorem FractionText.skips {fraction rest : List Char} (h : FractionText fraction)
    (hrest : NoDigit rest) (hpoint : rest.head? ≠ some '.') :
    Leaves (skipFraction (fraction ++ rest)) rest := by
  cases h with
  | absent =>
      rw [List.nil_append]
      unfold skipFraction
      split
      · exact absurd rfl hpoint
      · exact ⟨_, rfl⟩
  | present hds =>
      rcases hds.skips hrest with ⟨hle, hskip⟩
      simp only [List.cons_append, skipFraction, hskip]
      exact ⟨_, rfl⟩

theorem ExponentText.head?_ne_point {exponent rest : List Char} (h : ExponentText exponent)
    (hrest : Stops rest) : (exponent ++ rest).head? ≠ some '.' := by
  cases h with
  | absent =>
      intro hpoint
      rw [Stops, <- List.nil_append rest, hpoint] at hrest
      cases hrest
  | present he hsign hds =>
      rcases he with rfl | rfl
      all_goals
        intro hpoint
        cases hpoint

theorem skipNumber_append {whole fraction exponent rest : List Char} (hwhole : WholeText whole)
    (hfraction : FractionText fraction) (hexponent : ExponentText exponent) (hrest : Stops rest) :
    Leaves (skipNumber (whole ++ (fraction ++ (exponent ++ rest)))) rest := by
  have hnone := hexponent.noDigit hrest
  have hpoint := hexponent.head?_ne_point hrest
  rcases hfraction.skips hnone hpoint with ⟨hle, hskipFraction⟩
  rcases hexponent.skips hrest with ⟨hle', hskipExponent⟩
  unfold skipNumber
  rw [readDigits_append hwhole.isDigit (hfraction.noDigit hnone)]
  split
  · rename_i heq
    cases heq
    exact absurd rfl hwhole.ne_nil
  · rename_i heq
    cases heq
    cases hwhole.zero_alone _ rfl
  · rename_i heq
    cases heq
    simp only [bind, Except.bind, hskipFraction, hskipExponent]
    exact ⟨_, rfl⟩

/-!
# Decimal digits

Digits without leading zeros are those of the number that they stand for.
-/

theorem digitChar_of_isDigit {c : Char} (h : c.isDigit = true) :
    c.toNat - '0'.toNat < 10 ∧ Nat.digitChar (c.toNat - '0'.toNat) = c := by
  rw [Char.isDigit_iff_toNat] at h
  have hzero : '0'.toNat = 48 := rfl
  have hnine : '9'.toNat = 57 := rfl
  have hlt : c.toNat - '0'.toNat < 10 := by omega
  constructor
  · exact hlt
  · apply Char.toNat_inj.mp
    rw [Nat.toNat_digitChar_of_lt_ten hlt]
    omega

theorem toDigits_append {ds : List Char} {n : Nat} (hn : 0 < n)
    (hds : forall c, c ∈ ds -> c.isDigit = true) :
    Nat.toDigits 10 n ++ ds = Nat.toDigits 10 (Nat.ofDigitChars 10 ds n) := by
  -- `n` is what the digits before `ds` stand for; were it 0, its own digit would be too many.
  induction ds generalizing n with
  | nil => rw [List.append_nil, Nat.ofDigitChars_nil]
  | cons c ds ih =>
      rcases digitChar_of_isDigit (hds c List.mem_cons_self) with ⟨hlt, hchar⟩
      have hlonger := Nat.toDigits_append_toDigits (b := 10) (by decide) hn hlt
      rw [Nat.toDigits_of_lt_base hlt, hchar] at hlonger
      rw [Nat.ofDigitChars_cons]
      rw [<- ih (by omega) fun d hd => hds d (List.mem_cons_of_mem c hd), <- hlonger,
        List.append_assoc]
      rfl

theorem WholeText.toDigits_digitsValue {ds : List Char} (h : WholeText ds) :
    Nat.toDigits 10 (digitsValue ds) = ds := by
  cases ds with
  | nil => exact absurd rfl h.ne_nil
  | cons c ds =>
      rcases digitChar_of_isDigit (h.isDigit c List.mem_cons_self) with ⟨hlt, hchar⟩
      have hvalue : digitsValue (c :: ds) = Nat.ofDigitChars 10 ds (c.toNat - '0'.toNat) := by
        rw [digitsValue, Nat.ofDigitChars_cons, Nat.mul_zero, Nat.zero_add]
      rw [hvalue]
      by_cases hzero : c = '0'
      · subst hzero
        rw [h.zero_alone ds rfl]
        rfl
      · have hpos : 0 < c.toNat - '0'.toNat := by
          have hdigit := Char.isDigit_iff_toNat.mp (h.isDigit c List.mem_cons_self)
          have hne : c.toNat ≠ '0'.toNat := fun heq => hzero (Char.toNat_inj.mp heq)
          have hz : '0'.toNat = 48 := rfl
          omega
        rw [<- toDigits_append hpos fun d hd => h.isDigit d (List.mem_cons_of_mem c hd),
          Nat.toDigits_of_lt_base hlt, hchar]
        rfl

theorem digitsValue_toDigits (n : Nat) : digitsValue (Nat.toDigits 10 n) = n :=
  Nat.ofDigitChars_ten_toDigits

theorem toDigits_zero_alone {n : Nat} {more : List Char} (h : Nat.toDigits 10 n = '0' :: more) :
    more = [] := by
  induction n using Nat.strong_induction_on generalizing more with
  | _ n ih =>
      by_cases hn : n < 10
      · rw [Nat.toDigits_of_lt_base hn] at h
        exact (List.cons.inj h).2.symm
      · rw [Nat.toDigits_of_base_le (by decide) (Nat.le_of_not_lt hn)] at h
        rcases List.append_eq_cons_iff.mp h with ⟨hnil, -⟩ | ⟨init, hinit, -⟩
        · exact absurd hnil Nat.toDigits_ne_nil
        · have hvalue := digitsValue_toDigits (n / 10)
          rw [hinit, ih (n / 10) (by omega) hinit] at hvalue
          have hzero : digitsValue ['0'] = 0 := rfl
          omega

theorem wholeText_toDigits (n : Nat) : WholeText (Nat.toDigits 10 n) :=
  { ne_nil := Nat.toDigits_ne_nil
    isDigit := fun _ hc => Nat.isDigit_of_mem_toDigits (by decide) (by decide) hc
    zero_alone := fun _ h => toDigits_zero_alone h }

/-!
# Reading integers
-/

/-- The integers that are read exactly. -/
def IsExact (n : Int) : Prop :=
  -(maxNegative : Int) <= n ∧ n < (UInt64.size : Int)

instance (n : Int) : Decidable (IsExact n) :=
  inferInstanceAs (Decidable (_ ∧ _))

theorem writeInteger_natCast (n : Nat) : writeInteger (n : Int) = Nat.toDigits 10 n := by
  rw [writeInteger, if_neg (by omega), Int.natAbs_natCast]

theorem writeInteger_neg {n : Nat} (h : 0 < n) :
    writeInteger (-(n : Int)) = '-' :: Nat.toDigits 10 n := by
  rw [writeInteger, if_pos (by omega), Int.natAbs_neg, Int.natAbs_natCast]

theorem readReal_ne_integer (negative : Bool) (significand : Nat) (exponent n : Int) :
    readReal negative significand exponent ≠ .ok (.integer n) := by
  unfold readReal
  intro h
  split at h <;> cases h

theorem real_ne_integer (negative : Bool) (ds : List Char) (n : Int) :
    whole.real negative ds ≠ .ok (.integer n) :=
  readReal_ne_integer negative _ _ n

theorem WholeText.of_whole {negative : Bool} {ds : List Char} {n : Int} (h : WholeText ds)
    (hwhole : whole negative ds = .ok (.integer n)) : signText negative ++ ds = writeInteger n := by
  have hds := h.toDigits_digitsValue
  simp only [whole] at hwhole
  cases negative with
  | false =>
      rw [if_neg Bool.false_ne_true] at hwhole
      split at hwhole
      · cases hwhole
        exact ((writeInteger_natCast (digitsValue ds)).trans hds).symm
      · exact absurd hwhole (real_ne_integer _ _ _)
  | true =>
      rw [if_pos rfl] at hwhole
      split at hwhole
      · rename_i hfits
        cases hwhole
        exact ((writeInteger_neg hfits.1).trans (congrArg ('-' :: ·) hds)).symm
      · exact absurd hwhole (real_ne_integer _ _ _)

theorem WholeText.minus_not_mem {ds : List Char} (h : WholeText ds) : '-' ∉ ds := by
  intro hmem
  cases h.isDigit '-' hmem

theorem writeInteger_eq (n : Int) :
    writeInteger n = signText (n < 0) ++ Nat.toDigits 10 n.natAbs := by
  unfold writeInteger signText
  by_cases hn : n < 0 <;> simp [hn]

theorem signText_append_inj {a b : Bool} {ds es : List Char} (hds : WholeText ds)
    (hes : WholeText es) (h : signText a ++ ds = signText b ++ es) : a = b ∧ ds = es := by
  cases a with
  | false =>
      cases b with
      | false => exact ⟨rfl, h⟩
      | true =>
          have hminus : '-' ∈ ds := by
            rw [show ds = '-' :: es from h]
            exact List.mem_cons_self
          exact absurd hminus hds.minus_not_mem
  | true =>
      cases b with
      | false =>
          have hminus : '-' ∈ es := by
            rw [<- show '-' :: ds = es from h]
            exact List.mem_cons_self
          exact absurd hminus hes.minus_not_mem
      | true => exact ⟨rfl, (List.cons.inj h).2⟩

theorem WholeText.whole_eq {negative : Bool} {ds : List Char} {n : Int} (h : WholeText ds)
    (htext : signText negative ++ ds = writeInteger n) (hexact : IsExact n) :
    whole negative ds = .ok (.integer n) := by
  rcases hexact with ⟨hlow, hhigh⟩
  rw [writeInteger_eq] at htext
  rcases signText_append_inj h (wholeText_toDigits _) htext with ⟨hsign, rfl⟩
  rw [whole, digitsValue_toDigits]
  by_cases hn : n < 0
  · have hfits : 0 < n.natAbs ∧ n.natAbs <= maxNegative := by omega
    have hneg : -Int.ofNat n.natAbs = n := by
      rw [Int.ofNat_eq_natCast]
      omega
    rw [hsign, decide_eq_true hn, if_pos rfl, if_pos hfits, hneg]
  · have hfits : n.natAbs < UInt64.size := by omega
    have hcast : Int.ofNat n.natAbs = n := by
      rw [Int.ofNat_eq_natCast]
      omega
    rw [hsign, decide_eq_false hn, if_neg Bool.false_ne_true, if_pos hfits, hcast]

/-!
# Numbers with a fraction or an exponent

They are never read as integers.
-/

theorem readExponent_ne_integer {negative : Bool} {significand : Nat} {exponent n : Int}
    {cs rest : List Char} :
    ¬ Reads (readExponent negative significand exponent cs) (.integer n) rest := by
  intro h
  unfold readExponent at h
  generalize readExponentSign cs = signed at h
  rcases h.exists_of_bind with ⟨digits, left, _, _, h⟩
  dsimp only at h
  split at h
  · split at h
    · exact not_reads_error h
    · cases (reads_ok_iff.mp h).1
  · rcases reads_bind_iff.mp h with ⟨number, hnumber, h⟩
    rcases reads_ok_iff.mp h with ⟨rfl, -⟩
    exact readReal_ne_integer _ _ _ _ hnumber

theorem readTail_ne_integer {negative : Bool} {significand : Nat} {exponent n : Int}
    {cs rest : List Char} :
    ¬ Reads (readTail negative significand exponent cs) (.integer n) rest := by
  intro h
  unfold readTail at h
  split at h
  · rcases h.exists_of_bind with ⟨number, left, _, hnumber, h⟩
    rcases reads_ok_iff.mp h with ⟨rfl, -⟩
    exact readExponent_ne_integer hnumber
  · rcases h.exists_of_bind with ⟨number, left, _, hnumber, h⟩
    rcases reads_ok_iff.mp h with ⟨rfl, -⟩
    exact readExponent_ne_integer hnumber
  · rcases reads_bind_iff.mp h with ⟨number, hnumber, h⟩
    rcases reads_ok_iff.mp h with ⟨rfl, -⟩
    exact readReal_ne_integer _ _ _ _ hnumber

theorem readFraction_ne_integer {negative : Bool} {significand : Nat} {exponent n : Int}
    {cs rest : List Char} :
    ¬ Reads (readFraction negative significand exponent cs) (.integer n) rest := by
  intro h
  rcases h.exists_of_bind with ⟨digits, left, _, _, h⟩
  rcases h.exists_of_bind with ⟨number, last, _, hnumber, h⟩
  rcases reads_ok_iff.mp h with ⟨rfl, -⟩
  exact readTail_ne_integer hnumber

theorem stops_of_noDigit {after : List Char} (h : NoDigit after)
    (hpoint : forall cs, after = '.' :: cs -> False)
    (hlower : forall cs, after = 'e' :: cs -> False)
    (hupper : forall cs, after = 'E' :: cs -> False) : Stops after := by
  cases after with
  | nil => rfl
  | cons c cs =>
      have hdigit : (!c.isDigit) = true := h
      change isStop c = true
      simp only [isStop, Bool.and_eq_true, decide_eq_true_eq]
      refine ⟨⟨⟨hdigit, ?_⟩, ?_⟩, ?_⟩
      · exact fun hc => hpoint cs (hc ▸ rfl)
      · exact fun hc => hlower cs (hc ▸ rfl)
      · exact fun hc => hupper cs (hc ▸ rfl)

theorem WholeText.reads_integer_iff {negative : Bool} {ds after left : List Char} {n : Int}
    (h : WholeText ds) (hafter : NoDigit after) :
    Reads (readNumber negative (ds ++ after)) (.integer n) left <->
      Stops after ∧ whole negative ds = .ok (.integer n) ∧ left = after := by
  have hdigits := h.toDigits.reads hafter
  constructor
  · intro hread
    rcases hread.exists_of_bind with ⟨ds', after', _, hdigits', hread⟩
    rcases hdigits.unique hdigits' with ⟨rfl, rfl⟩
    dsimp only at hread
    split at hread
    · exact absurd hread not_reads_error
    · split at hread
      · rcases hread.exists_of_bind with ⟨number, last, _, hnumber, hread⟩
        rcases reads_ok_iff.mp hread with ⟨rfl, -⟩
        exact absurd hnumber readFraction_ne_integer
      · rcases hread.exists_of_bind with ⟨number, last, _, hnumber, hread⟩
        rcases reads_ok_iff.mp hread with ⟨rfl, -⟩
        exact absurd hnumber readExponent_ne_integer
      · rcases hread.exists_of_bind with ⟨number, last, _, hnumber, hread⟩
        rcases reads_ok_iff.mp hread with ⟨rfl, -⟩
        exact absurd hnumber readExponent_ne_integer
      · rename_i hpoint hlower hupper
        rcases reads_bind_iff.mp hread with ⟨number, hnumber, hread⟩
        rcases reads_ok_iff.mp hread with ⟨rfl, rfl⟩
        exact ⟨stops_of_noDigit hafter hpoint hlower hupper, hnumber, rfl⟩
  · intro ⟨hstops, hwhole, hleft⟩
    subst hleft
    refine hdigits.bind fun hle => ?_
    dsimp only
    split
    · cases h.zero_alone _ rfl
    · split
      · cases hstops
      · cases hstops
      · cases hstops
      · rw [hwhole]
        exact reads_ok_iff.mpr ⟨rfl, rfl⟩

/-!
# Integers of a range
-/

def IntRange.Holds (range : IntRange) (n : Int) : Prop :=
  range.least <= n ∧ n <= range.greatest

def IntRange.Exact (range : IntRange) : Prop :=
  IsExact range.least ∧ IsExact range.greatest

instance (range : IntRange) : Decidable range.Exact :=
  inferInstanceAs (Decidable (_ ∧ _))

theorem IntRange.Exact.isExact {range : IntRange} {n : Int} (h : range.Exact)
    (hn : range.Holds n) : IsExact n :=
  ⟨Int.le_trans h.1.1 hn.1, Int.lt_of_le_of_lt hn.2 h.2.2⟩

theorem IntRange.accept_iff {range : IntRange} {number : Number} {n : Int} :
    range.accept number = .ok n <-> number = .integer n ∧ range.Holds n := by
  cases number with
  | integer m =>
      unfold IntRange.accept
      constructor
      · intro h
        dsimp only at h
        split at h
        · rename_i hm
          cases h
          exact ⟨rfl, hm⟩
        · cases h
      · intro ⟨hm, hn⟩
        cases hm
        exact if_pos hn
  | real x =>
      constructor
      · intro h
        cases h
      · intro h
        cases h.1

theorem reads_accepted_iff {range : IntRange} {cs ds left : List Char} {n : Int} {negative : Bool}
    {widen : Rest cs -> Rest ds} (hwiden : forall rest, (widen rest).val = rest.val) :
    Reads (do
        let (number, last) <- readNumber negative cs
        return (<- range.accept number, widen last)) n left <->
      Reads (readNumber negative cs) (.integer n) left ∧ range.Holds n := by
  constructor
  · intro h
    rcases h.exists_of_bind with ⟨number, last, hle, hnumber, h⟩
    rcases reads_bind_iff.mp h with ⟨m, hm, hreturned⟩
    rcases IntRange.accept_iff.mp hm with ⟨rfl, hholds⟩
    rcases reads_ok_iff.mp hreturned with ⟨rfl, hlast⟩
    rw [<- hlast, hwiden]
    exact ⟨hnumber, hholds⟩
  · intro ⟨hnumber, hholds⟩
    refine hnumber.bind fun hle => ?_
    dsimp only
    rw [IntRange.accept_iff.mpr ⟨rfl, hholds⟩]
    exact reads_ok_iff.mpr ⟨rfl, hwiden _⟩

theorem readInteger_minus_iff {range : IntRange} {cs rest left : List Char} {n : Int}
    (h : skipBlank cs = '-' :: rest) :
    Reads (readInteger range cs) n left <->
      Reads (readNumber true rest) (.integer n) left ∧ range.Holds n := by
  unfold readInteger
  rw [nextChar_eq h]
  exact reads_accepted_iff fun _ => rfl

theorem readInteger_digit_iff {range : IntRange} {cs rest left : List Char} {c : Char} {n : Int}
    (h : skipBlank cs = c :: rest) (hc : c.isDigit = true) :
    Reads (readInteger range cs) n left <->
      Reads (readNumber false (c :: rest)) (.integer n) left ∧ range.Holds n := by
  have hminus : c ≠ '-' := by
    intro heq
    rw [heq] at hc
    cases hc
  unfold readInteger
  rw [nextChar_eq h]
  simp only [bind, Except.bind, if_neg hminus, if_pos hc]
  exact reads_accepted_iff fun _ => rfl

theorem not_reads_integer {range : IntRange} {cs rest left : List Char} {c : Char} {n : Int}
    (h : skipBlank cs = c :: rest) (hminus : c ≠ '-') (hdigit : c.isDigit = false) :
    ¬ Reads (readInteger range cs) n left := by
  unfold readInteger
  rw [nextChar_eq h]
  simp only [bind, Except.bind, if_neg hminus, hdigit]
  exact not_reads_error

theorem readInteger_signed_iff {range : IntRange} {cs ds after left : List Char} {n : Int}
    {negative : Bool} (h : WholeText ds) (hcs : skipBlank cs = signText negative ++ (ds ++ after)) :
    Reads (readInteger range cs) n left <->
      Reads (readNumber negative (ds ++ after)) (.integer n) left ∧ range.Holds n := by
  cases negative with
  | true => exact readInteger_minus_iff hcs
  | false =>
      cases ds with
      | nil => exact absurd rfl h.ne_nil
      | cons c ds => exact readInteger_digit_iff hcs (h.isDigit c List.mem_cons_self)

theorem writeInteger_injective : Function.Injective writeInteger := by
  intro m n h
  rw [writeInteger_eq, writeInteger_eq] at h
  rcases signText_append_inj (wholeText_toDigits _) (wholeText_toDigits _) h with ⟨hsign, hdigits⟩
  have habs : m.natAbs = n.natAbs := by
    rw [<- digitsValue_toDigits m.natAbs, hdigits, digitsValue_toDigits]
  have hneg : m < 0 <-> n < 0 := decide_eq_decide.mp hsign
  omega

theorem readInteger_writeInteger {range : IntRange} {cs rest : List Char} {n : Int}
    (hrange : range.Exact) (hn : range.Holds n) (hcs : skipBlank cs = writeInteger n ++ rest)
    (hrest : Stops rest) : Reads (readInteger range cs) n rest := by
  have hwhole := wholeText_toDigits n.natAbs
  rw [writeInteger_eq, List.append_assoc] at hcs
  apply (readInteger_signed_iff hwhole hcs).mpr
  constructor
  · apply (hwhole.reads_integer_iff hrest.noDigit).mpr
    exact ⟨hrest, hwhole.whole_eq (writeInteger_eq n).symm (hrange.isExact hn), rfl⟩
  · exact hn

theorem eq_nil_of_stops {fraction exponent rest : List Char} (hfraction : FractionText fraction)
    (hexponent : ExponentText exponent) (h : Stops (fraction ++ (exponent ++ rest))) :
    fraction = [] ∧ exponent = [] := by
  cases hfraction with
  | present => cases h
  | absent =>
      cases hexponent with
      | absent => exact ⟨rfl, rfl⟩
      | present he => rcases he with rfl | rfl <;> cases h

/-- An integer is read from no other text of a number than its own. -/
theorem NumberText.eq_of_readInteger {range : IntRange} {cs v rest left : List Char} {n : Int}
    (h : NumberText v) (hcs : skipBlank cs = v ++ rest) (hrest : Stops rest)
    (hread : Reads (readInteger range cs) n left) :
    v = writeInteger n ∧ range.Holds n ∧ left = rest := by
  cases h with
  | @mk negative ds fraction exponent hwhole hfraction hexponent =>
      simp only [List.append_assoc] at hcs
      rcases (readInteger_signed_iff hwhole hcs).mp hread with ⟨hnumber, hholds⟩
      have hafter := hfraction.noDigit (hexponent.noDigit hrest)
      rcases (hwhole.reads_integer_iff hafter).mp hnumber with ⟨hstops, hvalue, hleft⟩
      rcases eq_nil_of_stops hfraction hexponent hstops with ⟨rfl, rfl⟩
      simp only [List.append_nil]
      exact ⟨hwhole.of_whole hvalue, hholds, hleft⟩

end Json
end BlockCache
