import Michelson.Proofs.Marshal.Outline
import Michelson.Proofs.Text.TimestampReading
import Michelson.Typing.Inference

/-!
# Timestamps that are read back

A moment is written as seconds or as text. The text is read back as the same moment, and taken for a
timestamp where types are guessed, if the year has four digits. Texts are written for the moments of
other years, too: such a text has a sign in front, and is read neither as a timestamp nor as
anything else than a plain text.

## Main definitions

* `Json.wholeNumber?`: the integer that a host value is
* `Typedef.ReadsBack`: texts that are read back as a moment

## Main results

* `Expr.typeOfText_of_sign`: texts with a sign in front are plain texts
* `Typedef.readsBack_of_marshal`: the moments whose texts are read back
-/

namespace Michelson

/-! ## Texts with a sign in front -/

/-- A text that begins with no digit of base 58 has no bytes. -/
theorem Identifier.decodeText_of_idxOf?_eq_none {text : String} {c : Char} {cs : List Char}
    (htext : text.toList = c :: cs) (hc : Text.Base58.alphabet.idxOf? c = none) :
    decodeText text = .error (.base58 text) := by
  have hdecode : Text.Base58.decode? text = none := by
    rw [Text.Base58.decode?, htext, List.mapM_cons, hc]
    rfl
  rw [decodeText, Text.Base58.decodeChecked?, hdecode]
  rfl

theorem Identifier.readFirst_of_error {κ α : Type} {kinds : List κ}
    {read : κ → List UInt8 → Option α} {text : String} {err : IdentifierError}
    (h : decodeText text = .error err) : readFirst kinds read text = .error err := by
  rw [readFirst, h]
  rfl

/-- **A text with a sign in front** is taken for a plain text. -/
theorem Expr.typeOfText_of_sign {text : String} {c : Char} {cs : List Char}
    (htext : text.toList = c :: cs) (hc : c = '-' ∨ c = '+') :
    typeOfText text = plainType .string := by
  have hletter : Text.Base58.alphabet.idxOf? c = none := by
    rcases hc with rfl | rfl <;> decide
  have hread : Timestamp.read? text = none := by
    refine Timestamp.read?_of_not_isDigit htext ?_
    rcases hc with rfl | rfl <;> rfl
  have haddress : ∃ more, (splitEntrypoint text).1.toList = c :: more := by
    have hne : c ≠ '%' := by rcases hc with rfl | rfl <;> decide
    simp only [splitEntrypoint, htext]
    split
    · rw [String.toList_ofList, List.takeWhile_cons_of_pos (by simpa using hne)]
      exact ⟨_, rfl⟩
    · exact ⟨cs, htext⟩
  obtain ⟨more, haddress⟩ := haddress
  have hnoAddress : Address.ofText (splitEntrypoint text).1 = .error _ :=
    Identifier.readFirst_of_error (Identifier.decodeText_of_idxOf?_eq_none haddress hletter)
  have hnoSignature : Signature.ofText text = .error _ :=
    Identifier.readFirst_of_error (Identifier.decodeText_of_idxOf?_eq_none htext hletter)
  rw [typeOfText, hread, hnoAddress, hnoSignature]
  rfl

/-! ## Timestamps from host values -/

/-- **The integer that a host value is**: a number, or a text that spells one. -/
def Json.wholeNumber? : Json → Option Int
  | .number (.integer n) => some n
  | .string s => Text.readInteger? s
  | _ => none

namespace Typedef

/-- Whether a text is read back as a moment, and is taken for a timestamp. -/
def ReadsBack (t : Typedef) (text : String) (seconds : Int) : Prop :=
  t.marshal .optimized (.string text) = .ok (.int seconds) ∧
    (Expr.string text).inferType = .plainType .timestamp

section Timestamps

variable {t : Typedef} (hkind : t.kind.isType .timestamp = true) (hoptional : t.optional = false)

include hkind hoptional

/-- Nothing but a moment is built for a timestamp that is given under no name. -/
theorem marshal_eq_hostTimestamp (form : ScalarForm) {value : Json}
    (hvalue : t.unwrapName value = value) :
    t.marshal form value = t.hostTimestamp form value := by
  have hheld : marshalHeld form t value = t.hostTimestamp form value :=
    marshalHeld_eq_scalar (Kind.isType_iff.mp hkind) (by decide)
  rw [marshal_eq, hvalue, hoptional]
  simp only [hheld, Bool.false_eq_true, if_false, bind_pure]

/-- What is built for an integer: its seconds, or the text of the moment if there is one. -/
theorem marshal_wholeNumber {value : Json} {n : Int} (hvalue : value.wholeNumber? = some n) :
    t.marshal .optimized value = .ok (.int n) ∧
      t.marshal .readable value = (Timestamp.render? n).elim (t.invalid .outOfRange)
        fun text => .ok (.string text) := by
  have hnumber : t.hostNumber .timestamp .notTimestamp
      (fun s => Timestamp.read? s <|> Text.readInteger? s) value = .ok n := by
    match value, hvalue with
    | .number (.integer _), hvalue =>
      cases hvalue
      rfl
    | .string s, hvalue =>
      have hvalue : Text.readInteger? s = some n := hvalue
      rw [hostNumber, Timestamp.read?_of_readInteger? hvalue, hvalue]
      rfl
  have hname : t.unwrapName value = value := by
    match value, hvalue with
    | .number _, _ | .string _, _ => rfl
  rw [marshal_eq_hostTimestamp hkind hoptional _ hname,
    marshal_eq_hostTimestamp hkind hoptional _ hname, hostTimestamp, hostTimestamp, hnumber]
  refine ⟨rfl, ?_⟩
  cases htext : Timestamp.render? n with
  | none =>
    simp only [bind, Except.bind, htext]
    rfl
  | some text =>
    simp only [bind, Except.bind, htext]
    rfl

/-- The text of a moment is read back if its year has four digits, and refused if not. -/
theorem marshal_renderedText {n : Int} {text : String} (htext : Timestamp.render? n = some text) :
    t.marshal .optimized (.string text) =
      if Timestamp.HasFourDigitYear n then .ok (.int n) else t.invalid .notTimestamp := by
  rw [marshal_eq_hostTimestamp hkind hoptional _ rfl, hostTimestamp, hostNumber,
    Timestamp.read?_of_render? htext, Timestamp.readInteger?_of_render? htext]
  by_cases hyear : Timestamp.HasFourDigitYear n
  · rw [if_pos hyear, if_pos hyear]
    rfl
  · rw [if_neg hyear, if_neg hyear]
    rfl

end Timestamps

/-- The text of a moment is taken for a timestamp if its year has four digits, and for a plain text
if not. -/
theorem inferType_renderedText {n : Int} {text : String}
    (htext : Timestamp.render? n = some text) :
    (Expr.string text).inferType =
      .plainType (if Timestamp.HasFourDigitYear n then .timestamp else .string) := by
  rw [Expr.inferType]
  split
  next hyear =>
    rw [Expr.typeOfText, Timestamp.read?_of_hasFourDigitYear htext hyear]
    rfl
  next hyear =>
    obtain ⟨c, cs, hcs, hsign⟩ := Timestamp.exists_sign_of_not_hasFourDigitYear htext hyear
    exact Expr.typeOfText_of_sign hcs hsign

/-- **The moments whose texts are read back.** For an integer that a timestamp is given, a text is
written just if it lies in the range of the calendar. The text is read back as the same number of
seconds, and taken for a timestamp, if the year of the moment is one from 0 to 9999. If it is not,
the text is refused, and taken for a plain text. -/
theorem readsBack_of_marshal (t : Typedef) (hkind : t.kind.isType .timestamp = true)
    (hoptional : t.optional = false) (value : Json) (n : Int)
    (hvalue : value.wholeNumber? = some n) :
    t.marshal .optimized value = .ok (.int n) ∧
    (Timestamp.range.1 ≤ n ∧ n ≤ Timestamp.range.2 →
      ∃ text, t.marshal .readable value = .ok (.string text) ∧
        (Timestamp.HasFourDigitYear n → t.ReadsBack text n) ∧
        (¬ Timestamp.HasFourDigitYear n →
          t.marshal .optimized (.string text) = .error (.scalar t.name t.kind .notTimestamp) ∧
            (Expr.string text).inferType = .plainType .string)) ∧
    (¬ (Timestamp.range.1 ≤ n ∧ n ≤ Timestamp.range.2) →
      t.marshal .readable value = .error (.scalar t.name t.kind .outOfRange)) := by
  obtain ⟨hoptimized, hreadable⟩ := marshal_wholeNumber hkind hoptional hvalue
  rw [hreadable]
  refine ⟨hoptimized, fun hrange => ?_, fun hrange => ?_⟩
  · obtain ⟨text, htext⟩ : ∃ text, Timestamp.render? n = some text :=
      ⟨_, if_pos (by simpa using hrange)⟩
    have hback := marshal_renderedText hkind hoptional htext
    have htype := inferType_renderedText htext
    refine ⟨text, by rw [htext]; rfl, fun hyear => ?_, fun hyear => ?_⟩
    · rw [if_pos hyear] at hback htype
      exact ⟨hback, htype⟩
    · rw [if_neg hyear] at hback htype
      exact ⟨hback, htype⟩
  · have htext : Timestamp.render? n = none := if_neg (by simpa using hrange)
    rw [htext]
    rfl

/-- The typedef of a timestamp. -/
def moment : Typedef := ⟨"moment", .type .timestamp, false, [], []⟩

/-- The last second of the year 9999 is read back, and the one behind it is not. -/
theorem readsBack_of_marshal_yearEnd :
    (∃ text, moment.marshal .readable (.string "253_402_300_799") = .ok (.string text) ∧
      moment.ReadsBack text 253402300799) ∧
    ∃ text, moment.marshal .readable (.number (.integer 253402300800)) = .ok (.string text) ∧
      (Expr.string text).inferType = .plainType .string := by
  have hlast : (Json.string "253_402_300_799").wholeNumber? = some 253402300799 := by
    decide +kernel
  have hnext : (Json.number (.integer 253402300800)).wholeNumber? = some 253402300800 := rfl
  obtain ⟨-, hlastIn, -⟩ := readsBack_of_marshal moment rfl rfl _ _ hlast
  obtain ⟨-, hnextIn, -⟩ := readsBack_of_marshal moment rfl rfl _ _ hnext
  obtain ⟨text, hmarshal, hback, -⟩ := hlastIn (by decide)
  obtain ⟨text', hmarshal', -, hlost⟩ := hnextIn (by decide)
  exact ⟨⟨text, hmarshal, hback (by decide)⟩, text', hmarshal', (hlost (by decide)).2⟩

/-- **A text that is not read back**: that of the first second of the year 10000. -/
theorem not_readsBack_fiveDigitYear :
    derive (.plainType .timestamp) "moment" = .ok moment ∧
      moment.marshal .readable (.number (.integer 253402300800)) =
        .ok (.string "+10000-01-01T00:00:00Z") ∧
      ¬ moment.ReadsBack "+10000-01-01T00:00:00Z" 253402300800 ∧
      (Expr.string "+10000-01-01T00:00:00Z").inferType ≠ .plainType .timestamp := by
  have htext : Timestamp.render? 253402300800 = some "+10000-01-01T00:00:00Z" := by
    decide +kernel
  have htype := inferType_renderedText htext
  rw [if_neg (by decide)] at htype
  have hne : (Expr.string "+10000-01-01T00:00:00Z").inferType ≠ .plainType .timestamp := by
    rw [htype]
    exact fun h => by cases h
  have hnumber : (Json.number (.integer 253402300800)).wholeNumber? = some 253402300800 := rfl
  obtain ⟨-, hreadable⟩ := marshal_wholeNumber (t := moment) rfl rfl hnumber
  rw [htext] at hreadable
  exact ⟨rfl, hreadable, fun hback => hne hback.2, hne⟩

end Typedef

end Michelson
