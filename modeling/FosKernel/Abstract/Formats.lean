import FosKernel.Foundation.Emission
import FosKernel.Text.Format

/-! # Formats as texts

What a format says, on the list of its characters: the flags, widths, dots and `l` of a
directive set its variables, a conversion emits characters, and everything else stands for
itself.
-/

namespace FosKernel.Text

/-- The character that a text starts with; the end of the text is the NUL. -/
def headCode : List Byte → Int
  | [] => 0
  | ch :: _ => ch.toNat

def IsDigit (ch : Int) : Prop := code '0' ≤ ch ∧ ch ≤ code '9'

instance (ch : Int) : Decidable (IsDigit ch) := inferInstanceAs (Decidable (_ ∧ _))

/-- The characters that may stand between a percent sign and the conversion. -/
def IsModifier (ch : Int) : Prop :=
  IsDigit ch ∨ ch = code '-' ∨ ch = code '*' ∨ ch = code '.' ∨ ch = code '#' ∨ ch = code 'l'

instance (ch : Int) : Decidable (IsModifier ch) := inferInstanceAs (Decidable (_ ∨ _))

def IsConversion (ch : Int) : Prop :=
  ch ∈ ['c', 'e', 's', 'd', 'u', 'o', 'p', 'x', '%'].map code

instance (ch : Int) : Decidable (IsConversion ch) := inferInstanceAs (Decidable (_ ∈ _))

def addDigit (precision ch : Int) : Int := int32 (int32 (int32 (precision * 10) + ch) - code '0')

/-- The value of the digits of a width, in the arithmetic of an `int`. -/
def widthValue (digits : List Byte) : Int :=
  digits.foldl (fun precision ch => addDigit precision ch.toNat) 0

/-- The variables of a directive after its modifiers, and the number of the next argument. -/
def settle (args : Nat → Argument) : List Byte → Directive → Nat → Directive × Nat
  | [], directive, ap => (directive, ap)
  | ch :: modifiers, directive, ap =>
      if ch.toNat = code '-' then settle args modifiers { directive with padc := code '-' } ap
      else if ch.toNat = code '0' then
        settle args modifiers { directive with padc := code '0' } ap
      else if IsDigit ch.toNat then
        settle args (modifiers.dropWhile fun ch => IsDigit ch.toNat)
          (directive.processPrecision
            (widthValue (ch :: modifiers.takeWhile fun ch => IsDigit ch.toNat))) ap
      else if ch.toNat = code '*' then
        settle args modifiers (directive.processPrecision (args ap).int.toInt) (ap + 1)
      else if ch.toNat = code '.' then
        settle args modifiers
          { directive with width := if directive.width < 0 then 0 else directive.width } ap
      else if ch.toNat = code '#' then settle args modifiers { directive with altflag := true } ap
      else settle args modifiers { directive with lflag := directive.lflag + 1 } ap
termination_by modifiers => modifiers.length
decreasing_by
  all_goals first
    | exact Nat.lt_succ_self _
    | exact Nat.lt_succ_of_le (List.dropWhile_sublist _).length_le

/-- What `printnum` emits. -/
def numberText (num : Nat) (base : Base) (width padc : Int) : List Int :=
  printnum record num base width padc []

/-- What `%e` emits for an error code and for its negation. -/
def errorText (err : Int) : List Int :=
  match errorTable.getD err.natAbs none with
  | some p => p.bytes.map BitVec.toInt
  | none => "error ".toList.map code ++ numberText err.natAbs .decimal (-1) (code ' ')

/-- What a conversion emits, and the number of the next argument. -/
def conversionText (ch : Int) (directive : Directive) (args : Nat → Argument) (ap : Nat) :
    Option (Nat × List Int) :=
  if ch = code 'e' then some (ap + 1, errorText (args ap).int.toInt)
  else convert record ch directive args ap []

/-- A place in a format: the text from there on and the number of the next argument. -/
abbrev FormatPlace := List Byte × Nat

def star : Byte := character '*'

/-- What a format emits next. -/
inductive FormatStep (args : Nat → Argument) : FormatPlace → List Int → FormatPlace → Prop
  | plain {ch : Byte} {text : List Byte} {ap : Nat} (other : (ch.toNat : Int) ≠ code '%') :
      FormatStep args (ch :: text, ap) [(ch.toNat : Int)] (text, ap)
  | conversion {modifiers rest : List Byte} {conversion : Byte} {ap next : Nat} {out : List Int}
      (modify : ∀ ch ∈ modifiers, IsModifier ch.toNat)
      (emits : conversionText conversion.toNat (settle args modifiers .initial ap).1 args
        (settle args modifiers .initial ap).2 = some (next, out)) :
      FormatStep args (character '%' :: (modifiers ++ conversion :: rest), ap) out (rest, next)
  | literal {modifiers tail : List Byte} {ap : Nat}
      (modify : ∀ ch ∈ modifiers, IsModifier ch.toNat)
      (unrecognised : ¬IsModifier (headCode tail) ∧ ¬IsConversion (headCode tail)) :
      FormatStep args (character '%' :: (modifiers ++ tail), ap)
        ((character '%' :: (modifiers ++ tail.take 1)).map fun ch => (ch.toNat : Int))
        (tail.drop 1, ap + modifiers.count star)

/-- What a format emits from one place to another. -/
inductive FormatRun (args : Nat → Argument) : FormatPlace → List Int → FormatPlace → Prop
  | refl (place : FormatPlace) : FormatRun args place [] place
  | head {place next last : FormatPlace} {out rest : List Int}
      (step : FormatStep args place out next) (run : FormatRun args next rest last) :
      FormatRun args place (out ++ rest) last

end FosKernel.Text
