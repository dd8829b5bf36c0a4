import LabelQuery.Proofs.Json.Reading
import Mathlib.Data.List.TakeWhile
import Mathlib.Tactic.Ring

/-!
# Numbers are read as they are written

The reader of numbers takes a numeral of the grammar, as long a one as there is, if it is not too
large (`gives_number_iff`). Each of its parts has a law of its own: the digits before the point, the
point and the digits behind it, and the exponent.

The exponent is counted only up to a limit. Beyond the limit the number is zero, or small, or too
large, whatever its digits are; `Numeral.isInRange_iff` puts this together with the decision of the
range, which may be any.
-/

namespace LabelQuery.Json

/-! ## Runs of digits -/

/-- Whether no digit follows. -/
def EndsDigits (rest : List Char) : Prop :=
  ∀ c ∈ rest.head?, c.isDigit = false

theorem endsDigits_dropWhile (cs : List Char) : EndsDigits (cs.dropWhile Char.isDigit) := by
  intro c head
  have stopped := List.head?_dropWhile_not Char.isDigit cs
  rw [Option.mem_def.mp head] at stopped
  exact stopped

theorem EndsDigits.of_cons {c : Char} (other : c.isDigit = false) (cs : List Char) :
    EndsDigits (c :: cs) := by
  rintro d ⟨⟩
  exact other

section Digits

variable {digits rest : List Char} (all : ∀ c ∈ digits, c.isDigit = true) (ends : EndsDigits rest)

include all ends

/-- Digits in front of something that is no digit are just the digits that are taken. The reader
takes the longest run there is, and this is where it ends. -/
theorem takeWhile_digits : (digits ++ rest).takeWhile Char.isDigit = digits := by
  have none : rest.takeWhile Char.isDigit = [] := by
    cases rest with
    | nil => rfl
    | cons c rest => simp [ends c rfl]
  rw [List.takeWhile_append_of_pos all, none, List.append_nil]

theorem dropWhile_digits : (digits ++ rest).dropWhile Char.isDigit = rest := by
  have parts := List.takeWhile_append_dropWhile (p := Char.isDigit) (l := digits ++ rest)
  rw [takeWhile_digits all ends] at parts
  exact List.append_cancel_left parts

end Digits

/-! ## The parts of a number -/

/-- Whether the digits can stand before the point. -/
structure IsWholePart (digits : List Char) : Prop where
  ne_nil : digits ≠ []
  all : ∀ c ∈ digits, c.isDigit = true
  leadingZero : digits.head? = some '0' → digits = ['0']

/-- **The digits before the point are taken as they are written**: there are some, a zero begins
them only if it is alone, and they end where no digit follows. -/
theorem gives_wholePart_iff {cs whole rest : List Char} :
    Gives (wholePart cs) whole rest ↔
      cs = whole ++ rest ∧ IsWholePart whole ∧ EndsDigits rest := by
  constructor
  · intro h
    unfold wholePart at h
    split at h
    · exact absurd h not_gives_error
    · next c more =>
      split at h
      · exact absurd h not_gives_error
      · next digit =>
        have isDigit : c.isDigit = true := by simpa using digit
        split at h
        · next nonzero =>
          obtain ⟨rfl, rfl⟩ := gives_ok.mp h
          refine ⟨by simp, ⟨List.cons_ne_nil _ _, ?_, ?_⟩, endsDigits_dropWhile more⟩
          · intro d mem
            rcases List.mem_cons.mp mem with rfl | mem
            · exact isDigit
            · exact List.mem_takeWhile_imp mem
          · intro zero
            cases zero
            exact absurd nonzero (by decide)
        · next zero =>
          obtain rfl : c = '0' := by simpa using zero
          split at h
          · exact absurd h not_gives_error
          · next none =>
            obtain ⟨rfl, rfl⟩ := gives_ok.mp h
            refine ⟨rfl, ⟨List.cons_ne_nil _ _, by simp [isDigit], fun _ => rfl⟩, ?_⟩
            intro d head
            rw [Option.mem_def.mp head] at none
            simpa using none
  · rintro ⟨rfl, ⟨nonempty, all, leadingZero⟩, ends⟩
    obtain ⟨c, digits, rfl⟩ := List.exists_cons_of_ne_nil nonempty
    have digit : c.isDigit = true := all c List.mem_cons_self
    have others : ∀ d ∈ digits, d.isDigit = true := fun d mem => all d (List.mem_cons_of_mem _ mem)
    simp only [List.cons_append, wholePart, digit, Bool.not_true, Bool.false_eq_true, if_false,
      takeWhile_digits others ends, dropWhile_digits others ends]
    by_cases zero : c = '0'
    · subst zero
      obtain ⟨-, rfl⟩ := List.cons.inj (leadingZero rfl)
      have stops : (rest.head?.any Char.isDigit) = false := by
        cases rest with
        | nil => rfl
        | cons d rest => exact ends d rfl
      simp only [bne_self_eq_false, Bool.false_eq_true, if_false, List.nil_append, stops, gives_ok,
        and_self]
    · have nonzero : (c != '0') = true := by simpa using zero
      simp only [nonzero, if_true, gives_ok, and_self]

/-- The digits behind the point with the point, or nothing if there are none. -/
def pointChars (fraction : List Char) : List Char :=
  if fraction = [] then [] else '.' :: fraction

/-- **The point and the digits behind it are taken as they are written**, or nothing if there is no
point. A point without a digit behind it is never left to what follows. -/
theorem gives_fractionPart_iff {cs fraction rest : List Char} :
    Gives (fractionPart cs) fraction rest ↔ cs = pointChars fraction ++ rest ∧
      (∀ c ∈ fraction, c.isDigit = true) ∧ (fraction = [] → rest.head? ≠ some '.') ∧
      (fraction ≠ [] → EndsDigits rest) := by
  constructor
  · intro h
    unfold fractionPart at h
    split at h
    · exact absurd h not_gives_error
    · next d ds =>
      split at h
      · exact absurd h not_gives_error
      · next digit =>
        obtain ⟨rfl, rfl⟩ := gives_ok.mp h
        refine ⟨by simp [pointChars], ?_, nofun, fun _ => endsDigits_dropWhile ds⟩
        intro e mem
        rcases List.mem_cons.mp mem with rfl | mem
        · simpa using digit
        · exact List.mem_takeWhile_imp mem
    · next lone point =>
      obtain ⟨rfl, rfl⟩ := gives_ok.mp h
      refine ⟨rfl, nofun, fun _ head => ?_, fun some => absurd rfl some⟩
      cases cs with
      | nil => cases head
      | cons c cs =>
        cases head
        cases cs with
        | nil => exact lone rfl
        | cons d ds => exact point d ds rfl
  · intro ⟨written, all, other, ends⟩
    subst written
    cases fraction with
    | nil =>
      show Gives (fractionPart rest) [] rest
      unfold fractionPart
      split
      · exact absurd rfl (other rfl)
      · exact absurd rfl (other rfl)
      · exact gives_ok.mpr ⟨rfl, rfl⟩
    | cons d ds =>
      have digit : d.isDigit = true := all d List.mem_cons_self
      have others : ∀ e ∈ ds, e.isDigit = true := fun e mem => all e (List.mem_cons_of_mem _ mem)
      have stops := ends (List.cons_ne_nil d ds)
      show Gives (fractionPart ('.' :: d :: (ds ++ rest))) (d :: ds) rest
      simp only [fractionPart, digit, Bool.not_true, Bool.false_eq_true, if_false,
        takeWhile_digits others stops, dropWhile_digits others stops, gives_ok, and_self]

/-! ## Exponents -/

theorem foldl_digits (value : Nat) (digits : List Char) :
    digits.foldl (fun value digit => 10 * value + (digit.toNat - '0'.toNat)) value =
      value * 10 ^ digits.length + decimalValue digits := by
  induction digits generalizing value with
  | nil => simp [decimalValue]
  | cons c digits ih =>
    rw [decimalValue, List.foldl_cons, List.foldl_cons, ih, ih, List.length_cons]
    ring

/-- The number that digits spell, cut in two anywhere: the front counts with the place at which it
was cut. -/
theorem decimalValue_append (front back : List Char) :
    decimalValue (front ++ back) = decimalValue front * 10 ^ back.length + decimalValue back := by
  rw [decimalValue, List.foldl_append, foldl_digits, ← decimalValue]

/-- The first digit counts with the place it stands at. It is the step by which the digits of an
exponent are counted. -/
theorem decimalValue_cons (c : Char) (digits : List Char) :
    decimalValue (c :: digits) =
      (c.toNat - '0'.toNat) * 10 ^ digits.length + decimalValue digits := by
  rw [← List.singleton_append, decimalValue_append]
  simp [decimalValue]

/-- **The digits of an exponent are counted as far as they matter**: some digit takes the exponent
over the limit exactly if the whole exponent is over it. Once over it, further digits only add to
it. -/
theorem isSome_beyondMaxExponent?_iff (value : Nat) {digits rest : List Char}
    (all : ∀ c ∈ digits, c.isDigit = true) (ends : EndsDigits rest) (small : value ≤ maxExponent) :
    (beyondMaxExponent? value (digits ++ rest)).isSome = true ↔
      maxExponent < value * 10 ^ digits.length + decimalValue digits := by
  induction digits generalizing value with
  | nil =>
    have none : beyondMaxExponent? value rest = none := by
      cases rest with
      | nil => rfl
      | cons c rest => simp [beyondMaxExponent?, ends c rfl]
    have zero : decimalValue [] = 0 := rfl
    simp only [List.nil_append, none, Option.isSome_none, Bool.false_eq_true, zero, false_iff,
      List.length_nil, Nat.pow_zero]
    omega
  | cons c digits ih =>
    have others : ∀ d ∈ digits, d.isDigit = true := fun d mem => all d (List.mem_cons_of_mem _ mem)
    have whole : value * 10 ^ (c :: digits).length + decimalValue (c :: digits) =
        (10 * value + (c.toNat - '0'.toNat)) * 10 ^ digits.length + decimalValue digits := by
      rw [decimalValue_cons, List.length_cons]
      ring
    rw [List.cons_append, beyondMaxExponent?, all c List.mem_cons_self, whole]
    simp only [Bool.not_true, Bool.false_eq_true, if_false]
    split
    · next large =>
      have grows := Nat.le_mul_of_pos_right (10 * value + (c.toNat - '0'.toNat))
        (Nat.pow_pos (n := digits.length) (show 0 < 10 by decide))
      exact iff_of_true rfl (by omega)
    · next small => exact ih _ others (Nat.le_of_not_lt small)

/-- Whether the characters are at most one sign. -/
def IsSign (sign : List Char) : Prop :=
  sign = [] ∨ sign = ['+'] ∨ sign = ['-']

/-- What is left behind the sign of an exponent is the text without that sign, of which there is one
at most. -/
theorem exists_sign (cs : List Char) :
    ∃ sign, IsSign sign ∧ cs = sign ++ (exponentSign cs).rest := by
  unfold exponentSign
  split
  · exact ⟨['+'], .inr (.inl rfl), rfl⟩
  · exact ⟨['-'], .inr (.inr rfl), rfl⟩
  · exact ⟨[], .inl rfl, rfl⟩

/-- In front of a digit the sign of an exponent is told from its digits: no digit is a sign, so a
missing sign is not confused with the first digit. -/
theorem exponentSign_append {sign : List Char} (isSign : IsSign sign) {d : Char}
    (digit : d.isDigit = true) (more : List Char) :
    exponentSign (sign ++ d :: more) =
      ⟨decide (sign = ['-']), d :: more, List.suffix_append _ _⟩ := by
  rcases isSign with rfl | rfl | rfl
  · have plus : d ≠ '+' := by
      rintro rfl
      exact absurd digit (by decide)
    have minus : d ≠ '-' := by
      rintro rfl
      exact absurd digit (by decide)
    simp [exponentSign, plus, minus]
  · rfl
  · rfl

/-- An exponent as it is written: its mark, its sign and its digits. -/
structure IsExponent (mark : Char) (sign digits : List Char) : Prop where
  mark : mark = 'e' ∨ mark = 'E'
  sign : IsSign sign
  ne_nil : digits ≠ []
  all : ∀ c ∈ digits, c.isDigit = true

/-- The exponent that is counted with: none if it is over the limit and makes no difference there,
because the mantissa is zero or the exponent negative. -/
inductive CountsAs (mantissaIsZero : Bool) (sign digits : List Char) : Option Int → Prop where
  | within : decimalValue digits ≤ maxExponent →
    CountsAs mantissaIsZero sign digits
      (some (if sign = ['-'] then -decimalValue digits else decimalValue digits))
  | beyond : maxExponent < decimalValue digits → (mantissaIsZero = true ∨ sign = ['-']) →
    CountsAs mantissaIsZero sign digits none

section CountsAs

variable {mantissaIsZero : Bool} {sign digits : List Char} {exponent? : Option Int}

theorem countsAs_of_le (small : decimalValue digits ≤ maxExponent) :
    CountsAs mantissaIsZero sign digits exponent? ↔ exponent? =
      some (if sign = ['-'] then -(decimalValue digits : Int) else decimalValue digits) := by
  constructor
  · intro counts
    cases counts with
    | within _ => rfl
    | beyond large _ => omega
  · rintro rfl
    exact .within small

/-- An exponent over the limit is not counted with at all, and it is allowed only where it makes no
difference: on a mantissa of zero, or with a minus sign. -/
theorem countsAs_of_lt (large : maxExponent < decimalValue digits) :
    CountsAs mantissaIsZero sign digits exponent? ↔
      exponent? = none ∧ (mantissaIsZero = true ∨ sign = ['-']) := by
  constructor
  · intro counts
    cases counts with
    | within small => omega
    | beyond _ negligible => exact ⟨rfl, negligible⟩
  · rintro ⟨rfl, negligible⟩
    exact .beyond large negligible

end CountsAs

/-- The exponent behind its mark and its sign: as long a run of digits as there is. It is refused
only if it is over the limit and would make the number large. -/
theorem gives_exponentPart_digits_iff {mantissaIsZero : Bool} {mark d : Char}
    {sign ds rest : List Char} {counted? : Option Int} (isMark : mark = 'e' ∨ mark = 'E')
    (isSign : IsSign sign) (digit : d.isDigit = true) :
    Gives (exponentPart mantissaIsZero (mark :: (sign ++ d :: ds))) counted? rest ↔
      (d :: ds).dropWhile Char.isDigit = rest ∧
        CountsAs mantissaIsZero sign ((d :: ds).takeWhile Char.isDigit) counted? := by
  have marked : (mark != 'e' && mark != 'E') = false := by
    rcases isMark with rfl | rfl <;> rfl
  have all : ∀ c ∈ (d :: ds).takeWhile Char.isDigit, c.isDigit = true := fun c mem =>
    List.mem_takeWhile_imp mem
  have counting := isSome_beyondMaxExponent?_iff 0 all (endsDigits_dropWhile (d :: ds))
    (Nat.zero_le _)
  rw [List.takeWhile_append_dropWhile, Nat.zero_mul, Nat.zero_add] at counting
  simp only [exponentPart, marked, Bool.false_eq_true, if_false]
  rw [exponentSign_append isSign digit]
  simp only [digit, Bool.not_true, Bool.false_eq_true, if_false]
  cases beyond : beyondMaxExponent? 0 (d :: ds) with
  | some behind =>
    rw [countsAs_of_lt (counting.mp (by rw [beyond]; rfl))]
    dsimp only
    split
    · next refused =>
      refine iff_of_false not_gives_error fun ⟨_, _, negligible⟩ => ?_
      rcases negligible with zero | negative
      · simp [zero] at refused
      · simp [negative] at refused
    · next negligible =>
      rw [gives_ok, and_comm, eq_comm (a := none)]
      exact and_congr_right' (iff_self_and.mpr fun _ => by
        simpa [or_iff_not_imp_left] using negligible)
  | none =>
    have small : decimalValue ((d :: ds).takeWhile Char.isDigit) ≤ maxExponent := by
      rw [beyond] at counting
      simpa using counting
    simp only [countsAs_of_le small, decide_eq_true_eq, gives_ok, eq_comm (b := counted?), and_comm]

/-- The mark, the sign and the digits of an exponent, or nothing if there is none. -/
def exponentChars (exponent? : Option (Char × List Char × List Char)) : List Char :=
  exponent?.elim [] fun (mark, sign, digits) => mark :: sign ++ digits

/-- The text of an exponent in front of a rest, mark and sign and digits one after the other. -/
theorem exponentChars_some (mark : Char) (sign digits rest : List Char) :
    exponentChars (some (mark, sign, digits)) ++ rest = mark :: (sign ++ (digits ++ rest)) := by
  rw [← List.append_assoc]
  rfl

/-- Where no mark of an exponent follows, nothing is taken, and the exponent that is counted with is
zero. -/
theorem gives_exponentPart_unmarked {mantissaIsZero : Bool} {cs rest : List Char}
    {counted? : Option Int} (other : ∀ c ∈ cs.head?, c ≠ 'e' ∧ c ≠ 'E') :
    Gives (exponentPart mantissaIsZero cs) counted? rest ↔ some 0 = counted? ∧ cs = rest := by
  cases cs with
  | nil => exact gives_ok
  | cons c more =>
    obtain ⟨small, capital⟩ := other c rfl
    have unmarked : (c != 'e' && c != 'E') = true := by simp [small, capital]
    simp only [exponentPart, unmarked, if_true]
    exact gives_ok

/-- Behind a mark there have to be digits, with at most a sign before them; without them the reader
of exponents ends in a fault. -/
theorem exists_digit_of_gives_exponentPart {mantissaIsZero : Bool} {mark : Char}
    {more rest : List Char} {counted? : Option Int} (isMark : mark = 'e' ∨ mark = 'E')
    (h : Gives (exponentPart mantissaIsZero (mark :: more)) counted? rest) :
    ∃ sign d ds, IsSign sign ∧ d.isDigit = true ∧ more = sign ++ d :: ds := by
  have marked : (mark != 'e' && mark != 'E') = false := by
    rcases isMark with rfl | rfl <;> rfl
  obtain ⟨sign, isSign, whole⟩ := exists_sign more
  simp only [exponentPart, marked, Bool.false_eq_true, if_false] at h
  split at h
  · exact absurd h not_gives_error
  · next d ds _ found =>
    rw [found] at whole
    split at h
    · exact absurd h not_gives_error
    · next digit => exact ⟨sign, d, ds, isSign, by simpa using digit, whole⟩

/-- **An exponent is taken as it is written**, if there is one, and counted with up to the limit.
Where there is none, nothing follows that could begin one. -/
theorem gives_exponentPart_iff {mantissaIsZero : Bool} {cs rest : List Char}
    {counted? : Option Int} :
    Gives (exponentPart mantissaIsZero cs) counted? rest ↔
      ∃ exponent?, cs = exponentChars exponent? ++ rest ∧
        (∀ mark sign digits, exponent? = some (mark, sign, digits) →
          IsExponent mark sign digits ∧ EndsDigits rest) ∧
        (exponent? = none → ∀ c ∈ rest.head?, c ≠ 'e' ∧ c ≠ 'E') ∧
        exponent?.elim (counted? = some 0) fun (_, sign, digits) =>
          CountsAs mantissaIsZero sign digits counted? := by
  constructor
  · intro h
    by_cases other : ∀ c ∈ cs.head?, c ≠ 'e' ∧ c ≠ 'E'
    · obtain ⟨rfl, rfl⟩ := (gives_exponentPart_unmarked other).mp h
      exact ⟨none, rfl, nofun, fun _ => other, rfl⟩
    · obtain ⟨mark, more, rfl, isMark⟩ : ∃ mark more, cs = mark :: more ∧
          (mark = 'e' ∨ mark = 'E') := by
        cases cs with
        | nil => exact absurd nofun other
        | cons c more => exact ⟨c, more, rfl, by simpa [or_iff_not_imp_left] using other⟩
      obtain ⟨sign, d, ds, isSign, digit, rfl⟩ := exists_digit_of_gives_exponentPart isMark h
      obtain ⟨left, counts⟩ := (gives_exponentPart_digits_iff isMark isSign digit).mp h
      have run := List.takeWhile_append_dropWhile (p := Char.isDigit) (l := d :: ds)
      have nonempty : (d :: ds).takeWhile Char.isDigit ≠ [] := by
        rw [List.takeWhile_cons_of_pos digit]
        exact List.cons_ne_nil _ _
      rw [left] at run
      refine ⟨some (mark, sign, _), ?_, ?_, nofun, counts⟩
      · rw [exponentChars_some, run]
      · rintro _ _ _ ⟨⟩
        exact ⟨⟨isMark, isSign, nonempty, fun e mem => List.mem_takeWhile_imp mem⟩,
          left ▸ endsDigits_dropWhile _⟩
  · intro ⟨exponent?, written, proper, missing, counts⟩
    subst written
    cases exponent? with
    | none => exact (gives_exponentPart_unmarked (missing rfl)).mpr ⟨counts.symm, rfl⟩
    | some parts =>
      obtain ⟨mark, sign, digits⟩ := parts
      obtain ⟨⟨isMark, isSign, nonempty, all⟩, ends⟩ := proper mark sign digits rfl
      have taken := takeWhile_digits all ends
      have left := dropWhile_digits all ends
      obtain ⟨d, ds, rfl⟩ := List.exists_cons_of_ne_nil nonempty
      rw [List.cons_append] at taken left
      rw [exponentChars_some, List.cons_append,
        gives_exponentPart_digits_iff isMark isSign (all d List.mem_cons_self), taken, left]
      exact ⟨rfl, counts⟩

/-! ## Whole numbers -/

variable {range : NumberRange}

namespace Numeral

/-- A numeral is of the right form if each of its three parts is. The laws of the parts are stated
for the parts alone, and this puts them together. -/
theorem isProper_iff {n : Numeral} : n.IsProper ↔ IsWholePart n.whole ∧
    (∀ c ∈ n.fraction, c.isDigit = true) ∧
    ∀ mark sign digits, n.exponent? = some (mark, sign, digits) → IsExponent mark sign digits := by
  constructor
  · intro proper
    refine ⟨⟨proper.whole_ne_nil, proper.whole, proper.leadingZero⟩, proper.fraction, ?_⟩
    intro mark sign digits written
    obtain ⟨isMark, isSign, nonempty, all⟩ := proper.exponent mark sign digits written
    exact ⟨isMark, isSign, nonempty, all⟩
  · intro ⟨whole, fraction, exponent⟩
    refine ⟨whole.ne_nil, whole.all, whole.leadingZero, fraction, ?_⟩
    intro mark sign digits written
    obtain ⟨isMark, isSign, nonempty, all⟩ := exponent mark sign digits written
    exact ⟨isMark, isSign, nonempty, all⟩

/-! ### Range -/

/-- Which exponent a numeral is counted with. -/
def CountsAs (n : Numeral) (exponent? : Option Int) : Prop :=
  n.exponent?.elim (exponent? = some 0) fun (_, sign, digits) =>
    Json.CountsAs (n.digits.all (· == '0')) sign digits exponent?

/-- **Being in range is a matter of the exponent that is counted with**: either there is none, or
the range does not exclude the digits with it. The range is any, so this is all that the reader
needs to know of it. -/
theorem isInRange_iff {n : Numeral} : n.IsInRange range ↔ ∃ exponent?, n.CountsAs exponent? ∧
    exponent?.any (range.excludes n.whole n.fraction) = false := by
  cases written : n.exponent? with
  | none =>
    simp only [IsInRange, CountsAs, exponent, hasNegativeExponent, written, Option.elim_none,
      Option.any_none, Bool.false_eq_true, if_false, exists_eq_left, Option.any_some]
    rw [if_neg (Nat.not_lt_zero _)]
    rfl
  | some parts =>
    obtain ⟨mark, sign, digits⟩ := parts
    simp only [IsInRange, CountsAs, exponent, hasNegativeExponent, written, Option.elim_some,
      Option.any_some, decide_eq_true_eq]
    by_cases large : maxExponent < decimalValue digits
    · simp only [if_pos large, countsAs_of_lt large, and_assoc, exists_eq_left, Option.any_none,
        and_true, List.all_eq_true, beq_iff_eq, or_comm]
    · simp only [if_neg large, countsAs_of_le (Nat.le_of_not_lt large), exists_eq_left,
        Option.any_some]

/-! ### Where a numeral ends -/

/-- Whether the rest does not go on with the numeral: no digit follows, and no part that is
missing. -/
structure EndsAt (n : Numeral) (rest : List Char) : Prop where
  digit : EndsDigits rest
  point : n.fraction = [] → n.exponent? = none → rest.head? ≠ some '.'
  exponent : n.exponent? = none → ∀ c ∈ rest.head?, c ≠ 'e' ∧ c ≠ 'E'

/-- A numeral ends where each of its parts does. What follows a part is the next part that is there,
and its first character, a point or a mark, ends the digits before it. -/
theorem endsAt_iff {n : Numeral} (proper : n.IsProper) {rest : List Char} : n.EndsAt rest ↔
    EndsDigits (pointChars n.fraction ++ (exponentChars n.exponent? ++ rest)) ∧
    (n.fraction = [] → (exponentChars n.exponent? ++ rest).head? ≠ some '.') ∧
    (n.fraction ≠ [] → EndsDigits (exponentChars n.exponent? ++ rest)) ∧
    (n.exponent? ≠ none → EndsDigits rest) ∧
    (n.exponent? = none → ∀ c ∈ rest.head?, c ≠ 'e' ∧ c ≠ 'E') := by
  have pointed {behind : List Char} (ends : EndsDigits behind) :
      EndsDigits (pointChars n.fraction ++ behind) := by
    unfold pointChars
    split
    · exact ends
    · exact .of_cons (by decide) _
  cases written : n.exponent? with
  | none =>
    constructor
    · intro ends
      exact ⟨pointed ends.digit, fun none => ends.point none written, fun _ => ends.digit, nofun,
        fun _ => ends.exponent written⟩
    · intro ⟨behind, point, digit, _, exponent⟩
      refine ⟨?_, fun none _ => point none, fun _ => exponent rfl⟩
      by_cases none : n.fraction = []
      · rw [none] at behind
        exact behind
      · exact digit none
  | some parts =>
    obtain ⟨mark, sign, digits⟩ := parts
    -- the mark of the exponent is neither a digit nor a point
    have digit : EndsDigits (exponentChars (some (mark, sign, digits)) ++ rest) := by
      refine .of_cons ?_ _
      rcases (proper.exponent _ _ _ written).1 with rfl | rfl <;> decide
    have point : (exponentChars (some (mark, sign, digits)) ++ rest).head? ≠ some '.' := by
      rw [exponentChars_some]
      rcases (proper.exponent _ _ _ written).1 with rfl | rfl <;> simp
    constructor
    · intro ends
      exact ⟨pointed digit, fun _ => point, fun _ => digit, fun _ => ends.digit, nofun⟩
    · intro ⟨_, _, _, ends, _⟩
      refine ⟨ends nofun, fun _ none => ?_, fun none => ?_⟩
      · cases written.symm.trans none
      · cases written.symm.trans none

end Numeral

/-- The text of a numeral without a sign, in front of a rest, bracketed as the reader takes it: one
part after another. -/
theorem Numeral.chars_unsigned (whole fraction : List Char)
    (exponent? : Option (Char × List Char × List Char)) (rest : List Char) :
    Numeral.chars ⟨false, whole, fraction, exponent?⟩ ++ rest =
      whole ++ (pointChars fraction ++ (exponentChars exponent? ++ rest)) := by
  rw [← List.append_assoc, ← List.append_assoc]
  rfl

/-- A numeral without a sign is taken as it is written, if it is in range. The laws of the three
parts are put together here, and the refusal of what is out of range is added. -/
theorem gives_unsignedNumber_iff {cs rest : List Char} :
    Gives (unsignedNumber range cs) () rest ↔ ∃ n : Numeral, n.isNegative = false ∧ n.IsProper ∧
      n.IsInRange range ∧ n.EndsAt rest ∧ cs = n.chars ++ rest := by
  simp only [unsignedNumber, gives_bind, gives_wholePart_iff, gives_fractionPart_iff,
    gives_exponentPart_iff]
  constructor
  · rintro ⟨whole, _, _, ⟨rfl, isWhole, ends⟩, fraction, _, _, ⟨rfl, digits, point, ends'⟩,
      counted?, left, _, ⟨exponent?, rfl, exponents, other, counts⟩, last⟩
    split at last
    · exact absurd last not_gives_error
    · next inside =>
      obtain ⟨-, rfl⟩ := gives_pure.mp last
      have proper : Numeral.IsProper ⟨false, whole, fraction, exponent?⟩ :=
        Numeral.isProper_iff.mpr ⟨isWhole, digits, fun _ _ _ written => (exponents _ _ _ written).1⟩
      have ends'' : exponent? ≠ none → EndsDigits left := fun some => by
        obtain ⟨parts, written⟩ := Option.ne_none_iff_exists'.mp some
        exact (exponents _ _ _ written).2
      have unrefused : counted?.any (range.excludes whole fraction) = false := by
        simpa only [Bool.not_eq_true] using inside
      exact ⟨_, rfl, proper,
        Numeral.isInRange_iff.mpr ⟨counted?, counts, unrefused⟩,
        (Numeral.endsAt_iff proper).mpr ⟨ends, point, ends', ends'', other⟩,
        (Numeral.chars_unsigned _ _ _ _).symm⟩
  · rintro ⟨⟨_, whole, fraction, exponent?⟩, rfl, proper, inRange, ends, rfl⟩
    obtain ⟨isWhole, digits, exponents⟩ := Numeral.isProper_iff.mp proper
    obtain ⟨counted?, counts, inside⟩ := Numeral.isInRange_iff.mp inRange
    obtain ⟨ends, point, ends', ends'', other⟩ := (Numeral.endsAt_iff proper).mp ends
    have unrefused : counted?.any (range.excludes whole fraction) = false := inside
    rw [Numeral.chars_unsigned]
    refine ⟨whole, _, List.suffix_append _ _, ⟨rfl, isWhole, ends⟩,
      fraction, exponentChars exponent? ++ rest, List.suffix_append _ _,
      ⟨rfl, digits, point, ends'⟩, counted?, rest, List.suffix_append _ _,
      ⟨exponent?, rfl, fun _ _ _ written => ⟨exponents _ _ _ written, ends'' ?_⟩, other, counts⟩,
      ?_⟩
    · exact fun none => nomatch written.symm.trans none
    · simp only [unrefused, Bool.false_eq_true, if_false, gives_pure, and_self]

/-- Whether a numeral may stand before the rest has nothing to do with its sign: neither its form,
nor the range, nor where it ends depends on it. -/
theorem Numeral.reads_resigned {n : Numeral} {rest : List Char} (isNegative : Bool)
    (proper : n.IsProper) (inRange : n.IsInRange range) (ends : n.EndsAt rest) :
    Numeral.IsProper { n with isNegative := isNegative } ∧
      Numeral.IsInRange range { n with isNegative := isNegative } ∧
      Numeral.EndsAt { n with isNegative := isNegative } rest :=
  ⟨⟨proper.1, proper.2, proper.3, proper.4, proper.5⟩, inRange, ⟨ends.1, ends.2, ends.3⟩⟩

/-- The text of an unsigned numeral begins with a digit, so it is not taken for a signed one. -/
theorem Numeral.exists_digit {n : Numeral} (proper : n.IsProper) (unsigned : n.isNegative = false) :
    ∃ d more, d.isDigit = true ∧ n.chars = d :: more := by
  obtain ⟨d, whole, first⟩ := List.exists_cons_of_ne_nil proper.whole_ne_nil
  have digit : d.isDigit = true := proper.whole d (first ▸ List.mem_cons_self)
  simp only [chars, unsigned, first, Bool.false_eq_true, if_false, List.nil_append,
    List.cons_append]
  exact ⟨d, _, digit, rfl⟩

/-- Where no minus sign comes first, the reader of numbers is that of numbers without a sign. -/
theorem number_eq_unsignedNumber {cs : List Char} (unsigned : cs.head? ≠ some '-') :
    number range cs = unsignedNumber range cs := by
  unfold number
  split
  · exact absurd rfl unsigned
  · rfl

/-- **Numbers are read as they are written**: the reader takes a numeral in range, as far as it
goes. The sign is taken off first, and plays no part in what follows. -/
theorem gives_number_iff {cs rest : List Char} :
    Gives (number range cs) () rest ↔ ∃ n : Numeral, n.IsProper ∧ n.IsInRange range ∧
      n.EndsAt rest ∧ cs = n.chars ++ rest := by
  constructor
  · intro h
    unfold number at h
    split at h
    · next more =>
      rw [gives_widen, gives_unsignedNumber_iff] at h
      obtain ⟨n, unsigned, proper, inRange, ends, rfl⟩ := h
      obtain ⟨proper, inRange, ends⟩ := Numeral.reads_resigned true proper inRange ends
      refine ⟨_, proper, inRange, ends, ?_⟩
      simp only [Numeral.chars, unsigned, Bool.false_eq_true, if_false, if_true, List.nil_append,
        List.cons_append]
    · obtain ⟨n, -, proper, inRange, ends, whole⟩ := gives_unsignedNumber_iff.mp h
      exact ⟨n, proper, inRange, ends, whole⟩
  · rintro ⟨n, proper, inRange, ends, rfl⟩
    cases sign : n.isNegative with
    | false =>
      obtain ⟨d, more, digit, first⟩ := Numeral.exists_digit proper sign
      have taken := gives_unsignedNumber_iff.mpr ⟨n, sign, proper, inRange, ends, rfl⟩
      rw [first, List.cons_append] at taken ⊢
      rw [number_eq_unsignedNumber]
      · exact taken
      · rintro ⟨⟩
        exact absurd digit (by decide)
    | true =>
      have signed : n.chars = '-' :: Numeral.chars { n with isNegative := false } := by
        simp only [Numeral.chars, sign, if_true, Bool.false_eq_true, if_false, List.nil_append,
          List.cons_append]
      obtain ⟨proper, inRange, ends⟩ := Numeral.reads_resigned false proper inRange ends
      rw [signed, List.cons_append, number, gives_widen]
      exact gives_unsignedNumber_iff.mpr ⟨_, rfl, proper, inRange, ends, rfl⟩

/-- Whether no number goes on with the rest. -/
def EndsNumber (rest : List Char) : Prop :=
  ∀ c ∈ rest.head?, c.isDigit = false ∧ c ≠ '.' ∧ c ≠ 'e' ∧ c ≠ 'E'

/-- A rest that no number goes on with ends every numeral, whichever parts it has. -/
theorem EndsNumber.endsAt {rest : List Char} (ends : EndsNumber rest) (n : Numeral) :
    n.EndsAt rest := by
  refine ⟨fun c head => (ends c head).1, fun _ _ point => ?_, fun _ c head => (ends c head).2.2⟩
  exact (ends '.' point).2.1 rfl

end LabelQuery.Json
