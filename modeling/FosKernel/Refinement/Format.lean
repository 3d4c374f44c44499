import FosKernel.Abstract.Formats
import Mathlib.Data.List.Induction
import Mathlib.Data.List.TakeWhile

/-! # The formatter emits characters

Whatever `putch` does with the characters, a directive and a whole format emit the same ones:
those that are left when `putch` records them.
-/

namespace FosKernel.Text

section Output

variable (putch : Int → σ → σ)

theorem putPads_emit (padc : Int) (count : Nat) (putdat : σ) :
    putPads putch padc count putdat = emit putch (List.replicate count padc) putdat := by
  induction count generalizing putdat with
  | zero => rfl
  | succ count induction => exact induction (putch padc putdat)

theorem numberText_eq (num : Nat) (base : Base) (width padc : Int) :
    numberText num base width padc =
      (if base.value ≤ num then numberText (num / base.value) base (int32 (width - 1)) padc
        else List.replicate (width - 1).toNat padc) ++
          [code (digitTable.getD (num % base.value) ' ')] := by
  rw [numberText, printnum, putPads_emit, emit_record, List.nil_append]
  rfl

theorem printnum_emit (num : Nat) (base : Base) (width padc : Int) (putdat : σ) :
    printnum putch num base width padc putdat =
      emit putch (numberText num base width padc) putdat := by
  induction num using Nat.strongRecOn generalizing width with
  | ind num induction =>
      rw [printnum, numberText_eq, emit_append, putPads_emit]
      split
      · next more =>
        have smaller : num / base.value < num := by
          have := base.two_le
          exact Nat.div_lt_self (by omega) (by omega)
        rw [induction _ smaller]
        rfl
      · rfl

/-- The width that is left after the characters of a string, and what is put for them. -/
def stringRun (altflag : Bool) : List Byte → Int → Int → Int × List Int
  | [], _, width => (width, [])
  | ch :: p, precision, width =>
      if 0 ≤ precision ∧ precision - 1 < 0 then (width, [])
      else
        let precision := if precision < 0 then precision else precision - 1
        let ch := ch.toInt
        let rest := stringRun altflag p precision (int32 (width - 1))
        (rest.1, (if altflag ∧ (ch < code ' ' ∨ code '~' < ch) then code '?' else ch) :: rest.2)

theorem putString_emit (altflag : Bool) (p : List Byte) (precision width : Int) (putdat : σ) :
    putString putch altflag p precision width putdat =
      ((stringRun altflag p precision width).1,
        emit putch (stringRun altflag p precision width).2 putdat) := by
  induction p generalizing precision width putdat with
  | nil => rfl
  | cons ch p induction =>
      rw [putString, stringRun]
      split
      · rfl
      · by_cases hidden : altflag ∧ (ch.toInt < code ' ' ∨ code '~' < ch.toInt)
        · simp only [induction, emit_cons, if_pos hidden]
        · simp only [induction, emit_cons, if_neg hidden]

theorem printString_emit (directive : Directive) (p : Option CString) (putdat : σ) :
    printString putch directive p putdat =
      emit putch (printString record directive p []) putdat := by
  simp only [printString, putString_emit, putPads_emit, emit_record]
  split
  · simp only [emit_append, List.nil_append]
  · simp only [emit_append, List.nil_append]

/-- A conversion emits the same characters whatever `putch` does with them. -/
theorem convert_emit (ch : Int) (directive : Directive) (args : Nat → Argument) (ap : Nat)
    (putdat : σ) :
    convert putch ch directive args ap putdat =
      (convert record ch directive args ap []).map fun result =>
        (result.1, emit putch result.2 putdat) := by
  simp only [convert, printnum_emit, emit_record]
  repeat' split
  all_goals first | rfl | simp [← printString_emit]

end Output

/-! ## The scanner -/

section Scanner

variable {format : CString} {args : Nat → Argument} {before text : List Byte}

/-- The character at the position where a text starts. -/
theorem readFormat_ok (bytes : format.bytes = before ++ text) :
    readFormat format before.length = .ok (headCode text) := by
  rw [readFormat, if_neg (by omega), Int.toNat_natCast, bytes]
  cases text with
  | nil =>
      simp only [List.append_nil, List.getElem?_length, if_true]
      rfl
  | cons ch text =>
      simp only [List.getElem?_append_right (Nat.le_refl _), Nat.sub_self,
        List.getElem?_cons_zero]
      rfl

theorem headCode_dropWhile {test : Byte → Prop} [DecidablePred test] {digits tail : List Byte}
    {holds : Int → Prop} (same : ∀ ch : Byte, test ch ↔ holds ch.toNat)
    (stop : ¬holds (headCode tail)) :
    ¬holds (headCode (digits.dropWhile (fun ch => test ch) ++ tail)) := by
  cases dropped : digits.dropWhile (fun ch => test ch) with
  | nil => exact stop
  | cons first others =>
      have failed := List.head?_dropWhile_not (fun ch => decide (test ch)) digits
      rw [dropped] at failed
      rw [List.cons_append, headCode, ← same]
      simpa using failed

theorem scanWidth_ok {digits tail : List Byte} {fuel : Nat} {ch precision : Int}
    (bytes : format.bytes = before ++ (digits ++ tail))
    (digital : ∀ digit ∈ digits, IsDigit digit.toNat) (stop : ¬IsDigit (headCode tail))
    (enough : digits.length < fuel) :
    scanWidth format fuel before.length ch precision =
      .ok (digits.foldl (fun precision digit => addDigit precision digit.toNat)
        (addDigit precision ch), before.length + digits.length) := by
  have digit_iff : ∀ ch, ¬(ch < code '0' ∨ code '9' < ch) ↔ IsDigit ch := by
    intro ch
    rw [IsDigit]
    omega
  induction digits generalizing before fuel ch precision with
  | nil =>
      cases fuel with
      | zero => exact absurd enough (Nat.not_lt_zero _)
      | succ fuel =>
          rw [scanWidth, readFormat_ok bytes]
          refine (if_pos (not_not.mp fun within => stop ((digit_iff _).mp within))).trans ?_
          simp [addDigit, pure, Except.pure]
  | cons digit digits induction =>
      cases fuel with
      | zero => exact absurd enough (Nat.not_lt_zero _)
      | succ fuel =>
          rw [scanWidth, readFormat_ok bytes]
          refine (if_neg ((digit_iff _).mpr (digital digit (by simp)))).trans ?_
          have rest : format.bytes = (before ++ [digit]) ++ (digits ++ tail) := by
            rw [bytes]
            simp
          have position : ((before ++ [digit]).length : Int) = before.length + 1 := by simp
          rw [← position]
          refine (induction rest (fun other member => digital other (by simp [member]))
            (by simpa using enough)).trans ?_
          simp only [position, List.foldl_cons, List.length_cons, headCode, List.cons_append]
          congr 2
          push_cast
          omega

theorem position_cons (before : List Byte) (ch : Byte) :
    ((before ++ [ch]).length : Int) = before.length + 1 := by simp

theorem readFormat_cons {ch : Byte} (bytes : format.bytes = before ++ (ch :: text)) :
    readFormat format before.length = .ok (ch.toNat : Int) := readFormat_ok bytes

theorem bytes_cons {ch : Byte} {modifiers tail : List Byte}
    (bytes : format.bytes = before ++ (ch :: modifiers ++ tail)) :
    format.bytes = (before ++ [ch]) ++ (modifiers ++ tail) := by
  rw [bytes, List.append_assoc]
  rfl

theorem scan_advance {ch : Byte} {modifiers : List Byte} {fuel ap : Nat} {directive : Directive}
    {settled : Directive × Nat} {head : Int}
    (scanned : scanDirective args format fuel directive ap (before ++ [ch]).length =
      .ok (settled.1, settled.2, head, (before ++ [ch]).length + modifiers.length + 1)) :
    scanDirective args format fuel directive ap (before.length + 1) =
      .ok (settled.1, settled.2, head, before.length + (ch :: modifiers).length + 1) := by
  rw [position_cons] at scanned
  refine scanned.trans ?_
  rw [List.length_cons]
  push_cast
  congr 4
  omega

/-- The modifiers of a directive are scanned. -/
theorem scanDirective_run {modifiers tail : List Byte} {directive : Directive} {ap : Nat}
    (extra : Nat) (bytes : format.bytes = before ++ (modifiers ++ tail))
    (modify : ∀ ch ∈ modifiers, IsModifier ch.toNat) (stop : ¬IsModifier (headCode tail)) :
    scanDirective args format (extra + modifiers.length + 1) directive ap before.length =
      .ok ((settle args modifiers directive ap).1, (settle args modifiers directive ap).2,
        headCode tail, before.length + modifiers.length + 1) := by
  fun_induction settle args modifiers directive ap generalizing before extra with
  | case1 directive ap =>
      simp only [IsModifier, IsDigit, not_or] at stop
      have zero : headCode tail ≠ code '0' := fun same => stop.1 (by rw [same]; decide)
      have digit : ¬(code '1' ≤ headCode tail ∧ headCode tail ≤ code '9') :=
        fun within => stop.1 ⟨Int.le_trans (by decide) within.1, within.2⟩
      rw [scanDirective, readFormat_ok bytes]
      refine (if_neg stop.2.1).trans ((if_neg zero).trans ((if_neg digit).trans ?_))
      refine (if_neg stop.2.2.1).trans ((if_neg stop.2.2.2.1).trans ?_)
      refine (if_neg stop.2.2.2.2.1).trans ((if_neg stop.2.2.2.2.2).trans ?_)
      simp [pure, Except.pure]
  | case2 ch modifiers directive ap minus induction =>
      have next := induction extra (bytes_cons bytes) (List.forall_mem_of_forall_mem_cons modify)
      rw [scanDirective, readFormat_cons bytes]
      exact (if_pos minus).trans (scan_advance next)
  | case3 ch modifiers directive ap minus zero induction =>
      have next := induction extra (bytes_cons bytes) (List.forall_mem_of_forall_mem_cons modify)
      rw [scanDirective, readFormat_cons bytes]
      exact (if_neg minus).trans ((if_pos zero).trans (scan_advance next))
  | case4 ch modifiers directive ap minus zero digit induction =>
      have within : code '1' ≤ (ch.toNat : Int) ∧ (ch.toNat : Int) ≤ code '9' := by
        have lower := digit.1
        rw [show code '0' = 48 from rfl] at lower zero
        refine ⟨?_, digit.2⟩
        rw [show code '1' = 49 from rfl]
        omega
      let test := fun ch : Byte => decide (IsDigit ch.toNat)
      have split : modifiers = modifiers.takeWhile test ++ modifiers.dropWhile test :=
        List.takeWhile_append_dropWhile.symm
      have sizes := congrArg List.length split
      rw [List.length_append] at sizes
      have digital : ∀ other ∈ modifiers.takeWhile test, IsDigit other.toNat := by
        intro other member
        simpa [test] using List.mem_takeWhile_imp member
      have notDigit : ¬IsDigit (headCode (modifiers.dropWhile test ++ tail)) :=
        headCode_dropWhile (fun _ => Iff.rfl) fun same => stop (.inl same)
      have width : format.bytes = (before ++ [ch]) ++ (modifiers.takeWhile test ++
          (modifiers.dropWhile test ++ tail)) := by
        rw [← List.append_assoc (modifiers.takeWhile test), ← split]
        exact bytes_cons bytes
      have scanned := @scanWidth_ok _ _ _ _ (extra + (ch :: modifiers).length) ch.toNat 0 width
        digital notDigit (by rw [List.length_cons]; omega)
      have next := @induction ((before ++ [ch]) ++ modifiers.takeWhile test)
        (extra + (modifiers.takeWhile test).length) (width.trans (List.append_assoc _ _ _).symm)
        fun other member =>
          modify other (List.mem_cons_of_mem ch ((List.dropWhile_sublist _).mem member))
      rw [position_cons] at scanned
      rw [scanDirective, readFormat_cons bytes]
      refine (if_neg minus).trans ((if_neg zero).trans ((if_pos within).trans ?_))
      have fuels : extra + (modifiers.takeWhile test).length + (modifiers.dropWhile test).length +
          1 = extra + (ch :: modifiers).length := by
        rw [List.length_cons]
        omega
      have position : (((before ++ [ch]) ++ modifiers.takeWhile test).length : Int) =
          before.length + 1 + (modifiers.takeWhile test).length := by
        simp only [List.length_append, List.length_singleton]
        push_cast
        rfl
      have last : (before.length + 1 + (modifiers.takeWhile test).length +
          (modifiers.dropWhile test).length + 1 : Int) =
            before.length + (ch :: modifiers).length + 1 := by
        rw [List.length_cons]
        omega
      rw [fuels, position, last, widthValue, List.foldl_cons] at next
      rw [widthValue, List.foldl_cons, scanned]
      exact next
  | case5 ch modifiers directive ap minus zero digit isStar induction =>
      have nonzero : ¬(code '1' ≤ (ch.toNat : Int) ∧ (ch.toNat : Int) ≤ code '9') :=
        fun within => digit ⟨Int.le_trans (by decide) within.1, within.2⟩
      have next := induction extra (bytes_cons bytes) (List.forall_mem_of_forall_mem_cons modify)
      rw [scanDirective, readFormat_cons bytes]
      refine (if_neg minus).trans ((if_neg zero).trans ((if_neg nonzero).trans ?_))
      exact (if_pos isStar).trans (scan_advance next)
  | case6 ch modifiers directive ap minus zero digit isStar dot induction =>
      have nonzero : ¬(code '1' ≤ (ch.toNat : Int) ∧ (ch.toNat : Int) ≤ code '9') :=
        fun within => digit ⟨Int.le_trans (by decide) within.1, within.2⟩
      have next := induction extra (bytes_cons bytes) (List.forall_mem_of_forall_mem_cons modify)
      rw [scanDirective, readFormat_cons bytes]
      refine (if_neg minus).trans ((if_neg zero).trans ((if_neg nonzero).trans ?_))
      exact (if_neg isStar).trans ((if_pos dot).trans (scan_advance next))
  | case7 ch modifiers directive ap minus zero digit isStar dot sharp induction =>
      have nonzero : ¬(code '1' ≤ (ch.toNat : Int) ∧ (ch.toNat : Int) ≤ code '9') :=
        fun within => digit ⟨Int.le_trans (by decide) within.1, within.2⟩
      have next := induction extra (bytes_cons bytes) (List.forall_mem_of_forall_mem_cons modify)
      rw [scanDirective, readFormat_cons bytes]
      refine (if_neg minus).trans ((if_neg zero).trans ((if_neg nonzero).trans ?_))
      exact (if_neg isStar).trans ((if_neg dot).trans ((if_pos sharp).trans (scan_advance next)))
  | case8 ch modifiers directive ap minus zero digit isStar dot sharp induction =>
      have nonzero : ¬(code '1' ≤ (ch.toNat : Int) ∧ (ch.toNat : Int) ≤ code '9') :=
        fun within => digit ⟨Int.le_trans (by decide) within.1, within.2⟩
      have long : (ch.toNat : Int) = code 'l' := by
        have one := modify ch (List.mem_cons_self ..)
        simp only [IsModifier, digit, minus, isStar, dot, sharp, false_or] at one
        exact one
      have next := induction extra (bytes_cons bytes) (List.forall_mem_of_forall_mem_cons modify)
      rw [scanDirective, readFormat_cons bytes]
      refine (if_neg minus).trans ((if_neg zero).trans ((if_neg nonzero).trans ?_))
      refine (if_neg isStar).trans ((if_neg dot).trans ((if_neg sharp).trans ?_))
      exact (if_pos long).trans (scan_advance next)

/-- The stars take one argument each. -/
theorem settle_next (modifiers : List Byte) (directive : Directive) (ap : Nat) :
    (settle args modifiers directive ap).2 = ap + modifiers.count star := by
  have ofStar : (star.toNat : Int) = code '*' := rfl
  fun_induction settle args modifiers directive ap with
  | case1 directive ap => rfl
  | case2 ch modifiers directive ap minus induction =>
      rw [induction, List.count_cons_of_ne]
      rintro rfl
      exact absurd minus (by decide)
  | case3 ch modifiers directive ap minus zero induction =>
      rw [induction, List.count_cons_of_ne]
      rintro rfl
      exact absurd zero (by decide)
  | case4 ch modifiers directive ap minus zero digit induction =>
      have none : (modifiers.takeWhile fun ch => IsDigit ch.toNat).count star = 0 := by
        rw [List.count_eq_zero]
        intro member
        exact absurd (List.mem_takeWhile_imp member) (by decide)
      have split := congrArg (List.count star)
        (@List.takeWhile_append_dropWhile _ (fun ch => decide (IsDigit ch.toNat)) modifiers)
      rw [List.count_append, none, Nat.zero_add] at split
      rw [induction, List.count_cons_of_ne, split]
      rintro rfl
      exact absurd digit (by decide)
  | case5 ch modifiers directive ap minus zero digit isStar induction =>
      have same : ch = star := BitVec.eq_of_toNat_eq (by rw [← ofStar] at isStar; omega)
      rw [induction, same, List.count_cons_self]
      omega
  | case6 ch modifiers directive ap minus zero digit isStar dot induction =>
      refine induction.trans ?_
      rw [List.count_cons_of_ne]
      rintro rfl
      exact isStar rfl
  | case7 ch modifiers directive ap minus zero digit isStar dot sharp induction =>
      rw [induction, List.count_cons_of_ne]
      rintro rfl
      exact isStar rfl
  | case8 ch modifiers directive ap minus zero digit isStar dot sharp induction =>
      rw [induction, List.count_cons_of_ne]
      rintro rfl
      exact isStar rfl

theorem rescan_ok {modifiers tail : List Byte} (extra : Nat)
    (bytes : format.bytes = before ++ character '%' :: (modifiers ++ tail))
    (other : ∀ ch ∈ modifiers, (ch.toNat : Int) ≠ code '%') :
    rescan format (extra + modifiers.length + 1) (before.length + 1 + modifiers.length + 1) =
      .ok (before.length + 1) := by
  induction modifiers using List.reverseRecOn generalizing tail extra with
  | nil =>
      have read : readFormat format before.length = .ok ((character '%').toNat : Int) :=
        readFormat_cons bytes
      have position : (before.length + 1 + ([] : List Byte).length + 1 - 1 - 1 : Int) =
          before.length := by
        rw [List.length_nil]
        omega
      rw [rescan]
      simp only [position, read]
      change Except.ok (before.length + 1 + ([] : List Byte).length + 1 - 1 : Int) = _
      simp
  | append_singleton modifiers ch induction =>
      have split : format.bytes = (before ++ character '%' :: modifiers) ++ (ch :: tail) := by
        rw [bytes]
        simp
      have read := readFormat_cons split
      have position : (before.length + 1 + (modifiers ++ [ch]).length + 1 - 1 - 1 : Int) =
          (before ++ character '%' :: modifiers).length := by
        simp only [List.length_append, List.length_cons, List.length_nil]
        omega
      have back : (before.length + 1 + (modifiers ++ [ch]).length + 1 - 1 : Int) =
          before.length + 1 + modifiers.length + 1 := by
        simp only [List.length_append, List.length_cons, List.length_nil]
        omega
      have inner : format.bytes = before ++ character '%' :: (modifiers ++ ch :: tail) := by
        rw [bytes]
        simp
      have next := induction extra inner fun earlier member => other earlier (by simp [member])
      rw [rescan]
      simp only [position, read]
      refine (if_neg (other ch (by simp))).trans ?_
      rw [back, ← next, List.length_append]
      rfl

end Scanner

/-! ## The main loop -/

theorem IsConversion.not_modifier {ch : Int} (conversion : IsConversion ch) : ¬IsModifier ch := by
  simp only [IsConversion, List.map, List.mem_cons, List.not_mem_nil, or_false] at conversion
  rcases conversion with rfl | rfl | rfl | rfl | rfl | rfl | rfl | rfl | rfl <;> decide

theorem IsModifier.ne_percent {ch : Int} (modifier : IsModifier ch) : ch ≠ code '%' := by
  rintro rfl
  exact absurd modifier (by decide)

theorem conversionText_none {ch : Int} {directive : Directive} {args : Nat → Argument} {ap : Nat} :
    conversionText ch directive args ap = none ↔ ¬IsConversion ch := by
  simp only [conversionText, convert, IsConversion, List.map, List.mem_cons, List.not_mem_nil,
    or_false]
  split_ifs <;> simp_all

section Loop

variable {format : CString} {args : Nat → Argument} {before text : List Byte} {fuel ap : Nat}
variable (putch : Int → σ → σ) (putdat : σ)

theorem vprintfmt_end (bytes : format.bytes = before) :
    vprintfmt putch (fuel + 1) format args before.length ap putdat = .ok putdat := by
  have ended : format.bytes = before ++ [] := bytes.trans (List.append_nil before).symm
  rw [vprintfmt, readFormat_ok ended]
  rfl

theorem vprintfmt_plain {plain : List Byte} (bytes : format.bytes = before ++ (plain ++ text))
    (other : ∀ ch ∈ plain, (ch.toNat : Int) ≠ code '%') :
    vprintfmt putch (fuel + plain.length) format args before.length ap putdat =
      vprintfmt putch fuel format args (before ++ plain).length ap
        (emit putch (plain.map fun ch => (ch.toNat : Int)) putdat) := by
  induction plain generalizing before putdat with
  | nil => simp
  | cons ch plain induction =>
      have nonzero : (ch.toNat : Int) ≠ 0 := by
        have := format.nonzero ch (by simp [bytes])
        intro zero
        exact this (BitVec.eq_of_toNat_eq (by simpa using zero))
      have next := induction (putch ch.toNat putdat) (bytes_cons bytes)
        (List.forall_mem_of_forall_mem_cons other)
      rw [position_cons] at next
      rw [List.length_cons, ← Nat.add_assoc, vprintfmt, readFormat_cons bytes]
      refine (if_pos (other ch (by simp))).trans ((if_neg nonzero).trans (next.trans ?_))
      simp

/-- A directive is scanned. -/
theorem scanned_directive {modifiers tail : List Byte} (extra : Nat)
    (bytes : format.bytes = before ++ character '%' :: (modifiers ++ tail))
    (modify : ∀ ch ∈ modifiers, IsModifier ch.toNat) (stop : ¬IsModifier (headCode tail)) :
    readFormat format before.length = .ok (code '%') ∧
      scanDirective args format (extra + modifiers.length + 1) .initial ap (before.length + 1) =
        .ok ((settle args modifiers .initial ap).1, (settle args modifiers .initial ap).2,
          headCode tail, before.length + 1 + modifiers.length + 1) := by
  have rest : format.bytes = (before ++ [character '%']) ++ (modifiers ++ tail) := by
    rw [bytes]
    simp
  have scanned := @scanDirective_run _ args _ _ _ .initial ap extra rest modify stop
  rw [position_cons] at scanned
  exact ⟨readFormat_ok bytes, scanned⟩

theorem vprintfmt_convert {modifiers rest : List Byte} {conversion : Byte} {start next : Nat}
    {directive : Directive} {out : List Int} (extra : Nat)
    (bytes : format.bytes = before ++ character '%' :: (modifiers ++ conversion :: rest))
    (modify : ∀ ch ∈ modifiers, IsModifier ch.toNat)
    (known : (conversion.toNat : Int) ≠ code 'e') (isConversion : IsConversion conversion.toNat)
    (settled : settle args modifiers .initial ap = (directive, start))
    (converted : convert record conversion.toNat directive args start [] = some (next, out)) :
    vprintfmt putch (extra + modifiers.length + 2) format args before.length ap putdat =
      vprintfmt putch (extra + modifiers.length + 1) format args
        (before ++ character '%' :: (modifiers ++ [conversion])).length next
        (emit putch out putdat) := by
  rcases @scanned_directive _ args _ ap _ _ extra bytes modify isConversion.not_modifier with
    ⟨read, scanned⟩
  have emitted := convert_emit putch conversion.toNat directive args start putdat
  rw [converted] at emitted
  have position : (before.length + 1 + modifiers.length + 1 : Int) =
      (before ++ character '%' :: (modifiers ++ [conversion])).length := by
    simp only [List.length_append, List.length_cons, List.length_nil]
    omega
  rw [headCode, settled] at scanned
  rw [vprintfmt, read, ← position]
  simp only [bind, Except.bind, ne_eq, not_true_eq_false, if_false, scanned, known, emitted,
    Option.map_some]

/-! ## Error codes -/

theorem vprintfmt_errorFormat {err : Nat} (small : err < 2 ^ 31) (extra : Nat) :
    vprintfmt putch (extra + 8) errorFormat (fun _ => ⟨BitVec.ofInt 32 err, 0, none⟩) 0 0 putdat =
      .ok (emit putch ("error ".toList.map code ++ numberText err .decimal (-1) (code ' '))
        putdat) := by
  have value : (BitVec.ofInt 32 err).toInt = err :=
    BitVec.toInt_ofInt_eq_self (by decide) (by omega) (by omega)
  have converted : convert record ((character 'd').toNat : Int) Directive.initial
      (fun _ => ⟨BitVec.ofInt 32 err, 0, none⟩) 0 [] =
        some (1, numberText err .decimal (-1) (code ' ')) := by
    have digits : convert record (code 'd') Directive.initial
        (fun _ => ⟨BitVec.ofInt 32 err, 0, none⟩) 0 [] =
          some (1, printnum record (BitVec.ofInt 32 err).toInt.natAbs .decimal (-1) (code ' ')
            (if (BitVec.ofInt 32 err).toInt < 0 then record (code '-') [] else [])) := rfl
    rw [value, if_neg (by omega)] at digits
    exact digits
  have first := @vprintfmt_plain _ errorFormat (fun _ => ⟨BitVec.ofInt 32 err, 0, none⟩) []
    ("%d".toList.map character) (extra + 2) 0 putch putdat ("error ".toList.map character) rfl
    (by decide)
  have second := @vprintfmt_convert _ errorFormat (fun _ => ⟨BitVec.ofInt 32 err, 0, none⟩)
    ("error ".toList.map character) 0 putch
    (emit putch ("error ".toList.map code) putdat) [] [] (character 'd') _ _ _ _ extra rfl
    (by simp) (by decide) (by decide) (by rw [settle]) converted
  have last := @vprintfmt_end _ errorFormat (fun _ => ⟨BitVec.ofInt 32 err, 0, none⟩)
    ("error %d".toList.map character) extra 1 putch
    (emit putch (numberText err .decimal (-1) (code ' '))
      (emit putch ("error ".toList.map code) putdat)) rfl
  rw [emit_append]
  exact first.trans (second.trans last)

theorem int32_eq {value : Int} (lower : -(2 ^ 31) ≤ value) (upper : value < 2 ^ 31) :
    int32 value = value := by
  rw [int32, Int.bmod_def]
  split
  · omega
  · omega

theorem stringRun_whole {p : List Byte} {width : Int} (negative : width ≤ 0)
    (room : -(2 ^ 31) ≤ width - p.length) :
    stringRun false p (-1) width = (width - p.length, p.map BitVec.toInt) := by
  induction p generalizing width with
  | nil => simp [stringRun]
  | cons ch p induction =>
      rw [List.length_cons] at room
      have less : int32 (width - 1) = width - 1 := int32_eq (by omega) (by omega)
      rw [stringRun, if_neg (by omega), if_pos (by omega)]
      simp only [less, induction (by omega : width - 1 ≤ 0) (by omega), List.length_cons,
        List.map_cons, Bool.false_eq_true, false_and, if_false]
      congr 1
      omega

/-- A text without a width is put as it is. -/
theorem convert_plainString {p : CString} (small : p.bytes.length < 2 ^ 31) :
    convert record ((character 's').toNat : Int) Directive.initial (fun _ => ⟨0, 0, some p⟩) 0 [] =
      some (1, p.bytes.map BitVec.toInt) := by
  have text : convert record (code 's') Directive.initial (fun _ => ⟨0, 0, some p⟩) 0 [] =
      some (1, printString record Directive.initial (some p) []) := rfl
  have run := @stringRun_whole p.bytes (-1) (by decide) (by omega)
  refine text.trans ?_
  rw [printString, if_neg (by decide)]
  simp only [putString_emit, Directive.initial, Option.getD_some, run, putPads_emit, emit_record,
    List.nil_append]
  rw [Int.toNat_of_nonpos (by omega)]
  simp

theorem vprintfmt_stringFormat {p : CString} (small : p.bytes.length < 2 ^ 31) (extra : Nat) :
    vprintfmt putch (extra + 2) stringFormat (fun _ => ⟨0, 0, some p⟩) 0 0 putdat =
      .ok (emit putch (p.bytes.map BitVec.toInt) putdat) := by
  have first := @vprintfmt_convert _ stringFormat (fun _ => ⟨0, 0, some p⟩) [] 0 putch putdat
    [] [] (character 's') _ _ _ _ extra rfl (by simp) (by decide) (by decide) (by rw [settle])
    (convert_plainString small)
  have last := @vprintfmt_end _ stringFormat (fun _ => ⟨0, 0, some p⟩)
    ("%s".toList.map character) extra 1 putch (emit putch (p.bytes.map BitVec.toInt) putdat) rfl
  exact first.trans last

theorem errorString_ok {err : Nat} : errorString err = .ok (errorTable.getD err none) := by
  rw [errorString]
  by_cases above : maxError < err
  · rw [if_pos above, List.getD_eq_getElem?_getD, List.getElem?_eq_none]
    · rfl
    · rw [maxError] at above
      simp only [errorTable, List.length_cons, List.length_nil]
      omega
  · rw [if_neg above, if_neg (by omega), Int.toNat_natCast]
    rfl

theorem errorTable_small {err : Nat} {p : CString} (known : errorTable.getD err none = some p) :
    p.bytes.length < 2 ^ 31 := by
  have all : ∀ entry ∈ errorTable, ∀ p, entry = some p → p.bytes.length < 2 ^ 31 := by
    simp [errorTable]
  rw [List.getD_eq_getElem?_getD] at known
  cases found : errorTable[err]? with
  | none =>
      rw [found] at known
      cases known
  | some entry =>
      rw [found] at known
      exact all entry (List.mem_of_getElem? found) p known

theorem vprintfmt_error {modifiers rest : List Byte} {start : Nat} {directive : Directive}
    {extra : Nat} (enough : 7 ≤ extra + modifiers.length)
    (bytes : format.bytes = before ++ character '%' :: (modifiers ++ character 'e' :: rest))
    (modify : ∀ ch ∈ modifiers, IsModifier ch.toNat)
    (settled : settle args modifiers .initial ap = (directive, start))
    (negatable : (args start).int ≠ BitVec.intMin 32) :
    vprintfmt putch (extra + modifiers.length + 2) format args before.length ap putdat =
      vprintfmt putch (extra + modifiers.length + 1) format args
        (before ++ character '%' :: (modifiers ++ [character 'e'])).length (start + 1)
        (emit putch (errorText (args start).int.toInt) putdat) := by
  have stop : ¬IsModifier (character 'e').toNat := by decide
  rcases @scanned_directive _ args _ ap _ _ extra bytes modify stop with ⟨read, scanned⟩
  have position : (before.length + 1 + modifiers.length + 1 : Int) =
      (before ++ character '%' :: (modifiers ++ [character 'e'])).length := by
    simp only [List.length_append, List.length_cons, List.length_nil]
    omega
  have lower := BitVec.le_toInt (args start).int
  have upper := BitVec.toInt_lt (x := (args start).int)
  have different : (args start).int.toInt ≠ -(2 ^ 31) := by
    intro same
    exact negatable (BitVec.eq_of_toInt_eq (same.trans (by decide)))
  have small : (args start).int.toInt.natAbs < 2 ^ 31 := by omega
  have absolute : (if (args start).int.toInt < 0 then int32 (-(args start).int.toInt)
      else (args start).int.toInt) = ((args start).int.toInt.natAbs : Int) := by
    split
    · rw [int32_eq (by omega) (by omega)]
      omega
    · omega
  obtain ⟨spare, fuel⟩ : ∃ spare, extra + modifiers.length + 1 = spare + 8 :=
    ⟨extra + modifiers.length - 7, by omega⟩
  rw [headCode, settled] at scanned
  rw [vprintfmt, read, ← position]
  simp only [bind, Except.bind, ne_eq, not_true_eq_false, if_false, scanned, absolute,
    errorString_ok, errorText]
  rw [if_pos (show ((character 'e').toNat : Int) = code 'e' from rfl)]
  cases known : errorTable.getD (args start).int.toInt.natAbs none with
  | none =>
      have text := vprintfmt_errorFormat putch putdat small spare
      rw [← fuel] at text
      simp only [text]
  | some p =>
      have text := vprintfmt_stringFormat putch putdat (errorTable_small known) (spare + 6)
      rw [show spare + 6 + 2 = spare + 8 from rfl, ← fuel] at text
      simp only [text]

/-- What follows the percent sign of an unrecognised directive is put as it is. -/
theorem vprintfmt_literal {modifiers tail : List Byte} (extra : Nat)
    (bytes : format.bytes = before ++ character '%' :: (modifiers ++ tail))
    (modify : ∀ ch ∈ modifiers, IsModifier ch.toNat)
    (unrecognised : ¬IsModifier (headCode tail) ∧ ¬IsConversion (headCode tail)) :
    vprintfmt putch (extra + modifiers.length + 2) format args before.length ap putdat =
      vprintfmt putch (extra + modifiers.length + 1) format args
        (before ++ [character '%']).length (ap + modifiers.count star)
        (putch (code '%') putdat) := by
  rcases @scanned_directive _ args _ ap _ _ extra bytes modify unrecognised.1 with ⟨read, scanned⟩
  have other : ∀ ch ∈ modifiers, (ch.toNat : Int) ≠ code '%' :=
    fun ch member => (modify ch member).ne_percent
  have back := rescan_ok extra bytes other
  have emitted := convert_emit putch (headCode tail) (settle args modifiers .initial ap).1 args
    (settle args modifiers .initial ap).2 putdat
  have nothing := @conversionText_none (headCode tail) (settle args modifiers .initial ap).1 args
    (settle args modifiers .initial ap).2
  have notError : headCode tail ≠ code 'e' := by
    intro same
    rw [same] at unrecognised
    exact unrecognised.2 (by decide)
  rw [conversionText, if_neg notError] at nothing
  rw [nothing.mpr unrecognised.2, Option.map_none] at emitted
  rw [vprintfmt, read, position_cons]
  simp only [bind, Except.bind, ne_eq, not_true_eq_false, if_false, scanned, notError, emitted,
    back]
  rw [settle_next]

/-- No `%e` reads the argument whose negation is no `int`. -/
def KnownCodes (args : Nat → Argument) (place : FormatPlace) : Prop :=
  ∀ out modifiers rest ap,
    FormatRun args place out (character '%' :: (modifiers ++ character 'e' :: rest), ap) →
    (∀ ch ∈ modifiers, IsModifier ch.toNat) →
      (args (ap + modifiers.count star)).int ≠ BitVec.intMin 32

theorem KnownCodes.step {place next : FormatPlace} {out : List Int} (known : KnownCodes args place)
    (step : FormatStep args place out next) : KnownCodes args next :=
  fun _ modifiers rest ap run => known _ modifiers rest ap (.head step run)

/-- A step of the format is taken. -/
theorem vprintfmt_step {place next : FormatPlace} {out : List Int}
    (step : FormatStep args place out next) (known : KnownCodes args place)
    (bytes : format.bytes = before ++ place.1) (enough : place.1.length + 10 ≤ fuel) :
    ∃ passed left, format.bytes = passed ++ next.1 ∧ next.1.length + 10 ≤ left ∧
      vprintfmt putch fuel format args before.length place.2 putdat =
        vprintfmt putch left format args passed.length next.2 (emit putch out putdat) := by
  cases step with
  | @plain ch text ap other =>
      obtain ⟨left, rfl⟩ : ∃ left, fuel = left + [ch].length := ⟨fuel - 1, by simp; omega⟩
      refine ⟨before ++ [ch], left, by simpa using bytes, by simpa using enough, ?_⟩
      exact vprintfmt_plain putch putdat bytes (by simpa using other)
  | @conversion modifiers rest conversion ap next out modify emits =>
      simp only [List.length_cons, List.length_append] at enough
      obtain ⟨extra, rfl⟩ : ∃ extra, fuel = extra + modifiers.length + 2 :=
        ⟨fuel - modifiers.length - 2, by omega⟩
      refine ⟨before ++ character '%' :: (modifiers ++ [conversion]),
        extra + modifiers.length + 1, by simpa using bytes, by simp only; omega, ?_⟩
      have settled : settle args modifiers .initial ap =
          ((settle args modifiers .initial ap).1, (settle args modifiers .initial ap).2) := rfl
      by_cases isError : (conversion.toNat : Int) = code 'e'
      · have same : conversion = character 'e' :=
          BitVec.eq_of_toNat_eq (Int.natCast_inj.mp isError)
        subst same
        rw [conversionText, if_pos isError, Option.some.injEq, Prod.mk.injEq] at emits
        rw [← emits.1, ← emits.2]
        refine vprintfmt_error putch putdat (by omega) bytes modify settled ?_
        rw [settle_next]
        exact known [] modifiers rest ap (.refl _) modify
      · have isConversion : IsConversion conversion.toNat := by
          by_contra none
          rw [conversionText_none.mpr none] at emits
          cases emits
        rw [conversionText, if_neg isError] at emits
        exact vprintfmt_convert putch putdat extra bytes modify isError isConversion settled emits
  | @literal modifiers tail ap modify unrecognised =>
      simp only [List.length_cons, List.length_append] at enough
      obtain ⟨extra, rfl⟩ : ∃ extra, fuel = extra + modifiers.length + 2 :=
        ⟨fuel - modifiers.length - 2, by omega⟩
      have whole : format.bytes =
          (before ++ [character '%']) ++ ((modifiers ++ tail.take 1) ++ tail.drop 1) := by
        rw [bytes, List.append_assoc modifiers, List.take_append_drop]
        simp
      have sizes := congrArg List.length (List.take_append_drop 1 tail)
      rw [List.length_append] at sizes
      have other : ∀ ch ∈ modifiers ++ tail.take 1, (ch.toNat : Int) ≠ code '%' := by
        intro ch member
        rcases List.mem_append.mp member with modifier | first
        · exact (modify ch modifier).ne_percent
        · cases tail with
          | nil => cases first
          | cons head tail =>
              rw [List.take_succ_cons, List.take_zero, List.mem_singleton] at first
              subst first
              intro same
              exact unrecognised.2 (by rw [headCode, same]; decide)
      obtain ⟨left, fuel⟩ : ∃ left, extra + modifiers.length + 1 =
          left + (modifiers ++ tail.take 1).length := by
        refine ⟨extra + 1 - (tail.take 1).length, ?_⟩
        rw [List.length_append]
        omega
      have first : vprintfmt putch (extra + modifiers.length + 2) format args before.length ap
          putdat = _ := vprintfmt_literal putch putdat extra bytes modify unrecognised
      refine ⟨(before ++ [character '%']) ++ (modifiers ++ tail.take 1), left, ?_, ?_, ?_⟩
      · exact whole.trans (List.append_assoc _ _ _).symm
      · simp only [List.length_append] at fuel ⊢
        omega
      · rw [first, fuel, vprintfmt_plain putch _ whole other]
        rfl

/-- What a format emits from a place to its end is handed to `putch`. -/
theorem vprintfmt_run {place last : FormatPlace} {out : List Int}
    (run : FormatRun args place out last) (ended : last.1 = []) (known : KnownCodes args place)
    (bytes : format.bytes = before ++ place.1) (enough : place.1.length + 10 ≤ fuel) :
    vprintfmt putch fuel format args before.length place.2 putdat =
      .ok (emit putch out putdat) := by
  induction run generalizing before fuel putdat with
  | refl place =>
      obtain ⟨left, rfl⟩ : ∃ left, fuel = left + 1 := ⟨fuel - 1, by omega⟩
      exact vprintfmt_end putch putdat (by simpa [ended] using bytes)
  | @head place next last out rest step _ induction =>
      rcases vprintfmt_step putch putdat step known bytes enough with
        ⟨passed, left, later, room, equal⟩
      rw [equal, induction _ ended (known.step step) later room, emit_append]

theorem formatStep_exists (args : Nat → Argument) (ch : Byte) (text : List Byte) (ap : Nat) :
    ∃ out rest last, FormatStep args (ch :: text, ap) out (rest, last) ∧
      rest.length ≤ text.length := by
  by_cases percent : (ch.toNat : Int) = code '%'
  · have same : ch = character '%' := BitVec.eq_of_toNat_eq (Int.natCast_inj.mp percent)
    subst same
    let test := fun ch : Byte => decide (IsModifier ch.toNat)
    have split : text.takeWhile test ++ text.dropWhile test = text :=
      List.takeWhile_append_dropWhile
    have modify : ∀ ch ∈ text.takeWhile test, IsModifier ch.toNat := by
      intro ch member
      simpa [test] using List.mem_takeWhile_imp member
    have stop : ¬IsModifier (headCode (text.dropWhile test)) := by
      have ended : ¬IsModifier (headCode (text.dropWhile test ++ [])) :=
        headCode_dropWhile (fun _ => Iff.rfl) (by decide)
      rwa [List.append_nil] at ended
    have shorter := congrArg List.length split
    rw [List.length_append] at shorter
    rw [← split]
    by_cases conversion : IsConversion (headCode (text.dropWhile test))
    · cases tail : text.dropWhile test with
      | nil =>
          rw [tail] at conversion
          exact absurd conversion (by decide)
      | cons conv rest =>
          rw [tail] at conversion
          cases converted : conversionText conv.toNat
              (settle args (text.takeWhile test) .initial ap).1 args
              (settle args (text.takeWhile test) .initial ap).2 with
          | none => exact absurd conversion (conversionText_none.mp converted)
          | some result =>
              refine ⟨result.2, rest, result.1, .conversion modify converted, ?_⟩
              rw [List.length_append, List.length_cons]
              omega
    · refine ⟨_, _, _, .literal modify ⟨stop, conversion⟩, ?_⟩
      rw [List.length_drop, List.length_append]
      omega
  · exact ⟨_, text, ap, .plain percent, le_rfl⟩

/-- Every format is gone through. -/
theorem exists_formatRun (args : Nat → Argument) (text : List Byte) (ap : Nat) :
    ∃ out last, FormatRun args (text, ap) out ([], last) := by
  generalize size : text.length = count
  induction count using Nat.strongRecOn generalizing text ap with
  | ind count induction =>
  cases text with
  | nil => exact ⟨[], ap, .refl _⟩
  | cons ch text =>
      have next : ∃ out rest last, FormatStep args (ch :: text, ap) out (rest, last) ∧
          rest.length ≤ text.length := formatStep_exists args ch text ap
      rcases next with ⟨out, rest, last, step, shorter⟩
      rw [List.length_cons] at size
      rcases induction rest.length (by omega) rest last rfl with ⟨more, final, run⟩
      exact ⟨out ++ more, final, .head step run⟩

end Loop

end FosKernel.Text
