import FosKernel.Refinement.Format

/-! # Formats are gone through to their end

`vprintfmt` ends for every format, and what it emits does not depend on `putch`. With a
buffer behind `putch` the text is cut off at the end of the buffer.
-/

namespace FosKernel.Formatting

open Text

section Emitted

variable {format : CString} {args : Nat → Argument}

/-- The fuel that a format needs. -/
def enough (format : CString) : Nat := format.bytes.length + 10

/-- What a format emits from its start. -/
def Prints (format : CString) (args : Nat → Argument) (ap : Nat) (out : List Int) : Prop :=
  ∀ {σ : Type} (putch : Int → σ → σ) (putdat : σ) (fuel : Nat), enough format ≤ fuel →
    vprintfmt putch fuel format args 0 ap putdat = .ok (emit putch out putdat)

theorem Prints.unique {first second : List Int} {ap : Nat} (left : Prints format args ap first)
    (right : Prints format args ap second) : first = second := by
  have same := (left record [] _ le_rfl).symm.trans (right record [] _ le_rfl)
  simpa using same

theorem prints_run {out : List Int} {ap last : Nat}
    (run : FormatRun args (format.bytes, ap) out ([], last))
    (known : KnownCodes args (format.bytes, ap)) : Prints format args ap out :=
  fun putch putdat _ room => vprintfmt_run putch putdat run rfl known (List.nil_append _).symm room

theorem formatRun_trans {first middle last : FormatPlace} {before after : List Int}
    (left : FormatRun args first before middle) (right : FormatRun args middle after last) :
    FormatRun args first (before ++ after) last := by
  induction left with
  | refl place => exact right
  | head step _ induction =>
      rw [List.append_assoc]
      exact .head step (induction right)

theorem KnownCodes.run {place next : FormatPlace} {out : List Int}
    (known : KnownCodes args place) (run : FormatRun args place out next) :
    KnownCodes args next := by
  induction run with
  | refl place => exact known
  | head step _ induction => exact induction (known.step step)

theorem FormatStep.suffix {place next : FormatPlace} {out : List Int}
    (step : FormatStep args place out next) : next.1 <:+ place.1 := by
  cases step with
  | plain _ => exact List.suffix_cons _ _
  | @conversion modifiers rest conversion _ _ _ _ _ =>
      exact ⟨character '%' :: (modifiers ++ [conversion]), by simp⟩
  | @literal modifiers tail _ _ _ =>
      refine ⟨character '%' :: (modifiers ++ tail.take 1), ?_⟩
      rw [List.cons_append, List.append_assoc, List.take_append_drop]

theorem FormatRun.suffix {place next : FormatPlace} {out : List Int}
    (run : FormatRun args place out next) : next.1 <:+ place.1 := by
  induction run with
  | refl place => exact List.suffix_rfl
  | head step _ induction => exact induction.trans (FormatStep.suffix step)

/-- `vprintfmt` ends without a read outside the format. An unrecognised directive appears as
it is written, and the text after it is formatted as if it started there. -/
theorem unrecognised_literal (known : KnownCodes args (format.bytes, 0)) :
    ∃ out, Prints format args 0 out ∧
      ∀ before modifiers tail ap,
        FormatRun args (format.bytes, 0) before (character '%' :: (modifiers ++ tail), ap) →
        (∀ ch ∈ modifiers, IsModifier ch.toNat) →
        ¬IsModifier (headCode tail) ∧ ¬IsConversion (headCode tail) →
          ∃ (rest : CString) (after : List Int), rest.bytes = tail.drop 1 ∧
            Prints rest args (ap + modifiers.count star) after ∧
            out = before ++ ((character '%' :: (modifiers ++ tail.take 1)).map fun ch =>
              (ch.toNat : Int)) ++ after := by
  rcases exists_formatRun args format.bytes 0 with ⟨out, last, run⟩
  refine ⟨out, prints_run run known, fun before modifiers tail ap reached modify unrecognised => ?_⟩
  have step : FormatStep args (character '%' :: (modifiers ++ tail), ap) _ _ :=
    .literal modify unrecognised
  have passed := formatRun_trans reached (.head step (.refl _))
  have nonzero : ∀ byte ∈ tail.drop 1, byte ≠ 0 := fun byte member =>
    format.nonzero byte ((FormatRun.suffix passed).subset member)
  rcases exists_formatRun args (tail.drop 1) (ap + modifiers.count star) with ⟨after, final, rest⟩
  refine ⟨⟨tail.drop 1, nonzero⟩, after, rfl, prints_run rest (KnownCodes.run known passed), ?_⟩
  rw [List.append_nil] at passed
  exact Prints.unique (prints_run run known) (prints_run (formatRun_trans passed rest) known)

/-- `a%-5!b` -/
def malformed : CString := ⟨"a%-5!b".toList.map character, by decide⟩

theorem malformed_literal : ∃ out after, Prints malformed (fun _ => ⟨5, 0, none⟩) 0 out ∧
    out = "a%-5!".toList.map code ++ after := by
  have known : KnownCodes (fun _ => ⟨5, 0, none⟩) (malformed.bytes, 0) := by
    intro out modifiers rest ap _ _
    exact show (5 : BitVec 32) ≠ _ by decide
  rcases unrecognised_literal known with ⟨out, prints, literal⟩
  have reached : FormatRun (fun _ => ⟨5, 0, none⟩) (malformed.bytes, 0) [97]
      (character '%' :: ([character '-', character '5'] ++ [character '!', character 'b']), 0) :=
    .head (.plain (by decide)) (.refl _)
  rcases literal _ _ _ _ reached (by decide) (by decide) with ⟨_, after, _, _, equal⟩
  exact ⟨out, after, prints, equal⟩

end Emitted

/-! ## Output to a buffer -/

section Buffer

/-- The characters that fit are in the buffer. -/
structure Filled (b : SprintBuf) (out : List Int) (after : SprintBuf) : Prop where
  cnt : after.cnt = b.cnt + out.length
  ebuf : after.ebuf = b.ebuf
  buf : after.buf = b.buf + min (b.ebuf - b.buf) out.length
  stored : ∀ index (below : index < out.length), b.buf + index < b.ebuf →
    after.memory (b.buf + index) = BitVec.ofInt 8 out[index]
  others : ∀ address, address < b.buf ∨ b.ebuf ≤ address →
    after.memory address = b.memory address

theorem sprintputch_filled {b : SprintBuf} {out : List Int} (counted : 0 ≤ b.cnt)
    (small : b.cnt + out.length < 2 ^ 31) : Filled b out (emit sprintputch out b) := by
  induction out generalizing b with
  | nil =>
      refine ⟨by simp, rfl, by simp, ?_, fun _ _ => rfl⟩
      intro index below
      cases below
  | cons ch out induction =>
      rw [List.length_cons] at small
      have more : int32 (b.cnt + 1) = b.cnt + 1 := int32_eq (by omega) (by omega)
      by_cases room : b.buf < b.ebuf
      · have put : sprintputch ch b = { b with
            cnt := b.cnt + 1
            memory := Function.update b.memory b.buf (BitVec.ofInt 8 ch)
            buf := b.buf + 1 } := by
          rw [sprintputch, more]
          exact if_pos room
        have rest := @induction { b with
            cnt := b.cnt + 1
            memory := Function.update b.memory b.buf (BitVec.ofInt 8 ch)
            buf := b.buf + 1 } (by simp only; omega) (by simp only; omega)
        rw [emit_cons, put]
        refine ⟨?_, rest.ebuf, ?_, ?_, ?_⟩
        · rw [rest.cnt, List.length_cons]
          push_cast
          omega
        · rw [rest.buf, List.length_cons]
          simp only
          omega
        · intro index below inside
          cases index with
          | zero =>
              refine (rest.others b.buf (.inl (Nat.lt_succ_self _))).trans ?_
              exact Function.update_self ..
          | succ index =>
              have next := rest.stored index (by simpa using below) (by simp only; omega)
              rw [show b.buf + (index + 1) = b.buf + 1 + index by omega]
              exact next
        · intro address outside
          rw [rest.others address (by simp only; omega)]
          exact Function.update_of_ne (by omega) _ _
      · have put : sprintputch ch b = { b with cnt := b.cnt + 1 } := by
          rw [sprintputch, more]
          exact if_neg room
        have rest := @induction { b with cnt := b.cnt + 1 } (by simp only; omega)
          (by simp only; omega)
        rw [emit_cons, put]
        refine ⟨?_, rest.ebuf, ?_, ?_, rest.others⟩
        · rw [rest.cnt, List.length_cons]
          push_cast
          omega
        · rw [rest.buf, List.length_cons]
          simp only
          omega
        · intro index below inside
          exact absurd (Nat.lt_of_le_of_lt (Nat.le_add_right _ _) inside) room

/-- The buffer after `vsnprintf`: the characters that fit, a NUL, and nothing else written. -/
structure Truncated (buf n : Nat) (out : List Int) (memory after : Nat → Byte) : Prop where
  stored : ∀ index (below : index < out.length), index < n - 1 →
    after (buf + index) = BitVec.ofInt 8 out[index]
  ended : after (buf + min (n - 1) out.length) = 0
  others : ∀ address, address < buf ∨ buf + n ≤ address → after address = memory address

variable {format : CString} {args : Nat → Argument} {buf n : Nat} {memory : Nat → Byte}

/-- `vsnprintf` cuts off the text that `vprintfmt` emits at the end of the buffer and returns
the length of the whole text. -/
theorem vsnprintf_truncates (known : KnownCodes args (format.bytes, 0)) (valid : buf ≠ 0)
    (positive : 1 ≤ n) :
    ∃ out : List Int, Prints format args 0 out ∧ (out.length < 2 ^ 31 →
      ∀ fuel, enough format ≤ fuel →
        ∃ after, vsnprintf fuel buf n format args memory = .ok ((out.length : Int), after) ∧
          Truncated buf n out memory after) := by
  rcases exists_formatRun args format.bytes 0 with ⟨out, last, run⟩
  have prints : Prints format args 0 out := prints_run run known
  refine ⟨out, prints, fun small fuel room => ?_⟩
  have last : ((n : Int) - 1).toNat = n - 1 := by omega
  have filled := @sprintputch_filled ⟨buf, buf + (n - 1), 0, memory⟩ out (Int.le_refl 0)
    (by simp only; omega)
  have ran := prints sprintputch ⟨buf, buf + (n - 1), 0, memory⟩ fuel room
  generalize emit sprintputch out ⟨buf, buf + (n - 1), 0, memory⟩ = b at filled ran
  have ending := filled.buf
  have count := filled.cnt
  simp only [Nat.add_sub_cancel_left, Int.zero_add] at ending count
  refine ⟨Function.update b.memory b.buf 0, ?_, ?_⟩
  · rw [vsnprintf, last, if_neg (by omega)]
    simp only [bind, Except.bind, pure, Except.pure, ran, count]
  · rw [ending]
    refine ⟨fun index below inside => ?_, Function.update_self .., fun address outside => ?_⟩
    · rw [Function.update_of_ne (by omega)]
      exact filled.stored index below (by simp only; omega)
    · rw [Function.update_of_ne (by omega)]
      exact filled.others address (by simp only; omega)

theorem vsnprintf_two : ∃ after,
    vsnprintf 12 1 2 ⟨[97, 98], by decide⟩ (fun _ => ⟨5, 0, none⟩) (fun _ => 7) = .ok (2, after) ∧
      after 1 = 97 ∧ after 2 = 0 ∧ after 3 = 7 := by
  have known : KnownCodes (fun _ => ⟨5, 0, none⟩) ([97, 98], 0) := by
    intro out modifiers rest ap _ _
    exact show (5 : BitVec 32) ≠ _ by decide
  rcases @vsnprintf_truncates ⟨[97, 98], by decide⟩ _ 1 2 (fun _ => 7) known (by decide)
    (by decide) with ⟨out, prints, written⟩
  have run : FormatRun (fun _ => ⟨5, 0, none⟩) ([97, 98], 0) [97, 98] ([], 0) :=
    .head (.plain (by decide)) (.head (.plain (by decide)) (.refl _))
  have same : out = [97, 98] := Prints.unique prints (prints_run run known)
  subst same
  rcases written (by decide) 12 (by decide) with ⟨after, returned, truncated⟩
  exact ⟨after, returned, truncated.stored 0 (by decide) (by decide), truncated.ended,
    truncated.others 3 (by decide)⟩

end Buffer

end FosKernel.Formatting
