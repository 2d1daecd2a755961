import Jukebox.Proofs.Reading
import Mathlib.Tactic.IntervalCases

/-!
# Values that are written and read again

The text of a value reads as the value if it has no more than 127 levels and its numbers do
(`Json.read_reread`). Where the limits of numbers and levels lie is what `Json.alike_of_read` leaves
open, which is about any text that can be read.

A number is read the same on its own and in front of whatever stops it (`Stretches`), so that
nothing has to be known of a float but whether its own text reads back. Whole numbers do up to
64 bits (`Json.read_int`).
-/

namespace Jukebox.Json

/-! ## Numbers in front of something else -/

/-- Whether a reader reads the same in front of a text at which numbers stop, and leaves that
text. -/
def Stretches (f : List Char → Option (Json × List Char)) : Prop :=
  ∀ cs rest, Stops rest → f (cs ++ rest) = (f cs).map fun r => (r.1, r.2 ++ rest)

namespace Stops

variable {rest : List Char} (hrest : Stops rest)

include hrest

theorem cons_isDigit {c : Char} {more : List Char} (h : rest = c :: more) :
    c.isDigit = false := by
  subst h
  have hc := hrest c rfl
  rw [isNumeric, Bool.or_eq_false_iff] at hc
  exact hc.1

theorem takeWhile_append (cs : List Char) :
    (cs ++ rest).takeWhile Char.isDigit = cs.takeWhile Char.isDigit := by
  induction cs with
  | nil =>
    cases rest with
    | nil => rfl
    | cons c more => exact List.takeWhile_cons_of_neg (by simp [hrest.cons_isDigit rfl])
  | cons c cs ih =>
    rw [List.cons_append, List.takeWhile_cons, List.takeWhile_cons, ih]

theorem dropWhile_append (cs : List Char) :
    (cs ++ rest).dropWhile Char.isDigit = cs.dropWhile Char.isDigit ++ rest := by
  induction cs with
  | nil =>
    cases rest with
    | nil => rfl
    | cons c more => exact List.dropWhile_cons_of_neg (by simp [hrest.cons_isDigit rfl])
  | cons c cs ih =>
    rw [List.cons_append, List.dropWhile_cons, List.dropWhile_cons, ih]
    split <;> rfl

theorem readDigits_append (significand taken : Nat) (cs : List Char) :
    readDigits significand taken (cs ++ rest) =
      match readDigits significand taken cs with
      | (significand, taken, ignored, left) => (significand, taken, ignored, left ++ rest) := by
  induction cs generalizing significand taken with
  | nil =>
    cases rest with
    | nil => rfl
    | cons c more => simp [readDigits, hrest.cons_isDigit rfl]
  | cons c cs ih =>
    rw [List.cons_append, readDigits, readDigits]
    by_cases hdigit : c.isDigit
    · rw [if_pos hdigit, if_pos hdigit]
      dsimp only
      by_cases hfits : significand * 10 + Text.digitValue c < UInt64.size
      · rw [if_pos hfits, if_pos hfits, ih]
      · rw [if_neg hfits, if_neg hfits, hrest.takeWhile_append, hrest.dropWhile_append]
    · rw [if_neg hdigit, if_neg hdigit]
      rfl

/-- A character of numbers stands in front of `rest` as it does alone. -/
theorem head_append (marks : List Char) (hmarks : marks.all isNumeric = true)
    (cs : List Char) :
    (∃ c more, cs = c :: more ∧ c ∈ marks) ∨
      (∀ c ∈ cs.head?, c ∉ marks) ∧ ∀ c ∈ (cs ++ rest).head?, c ∉ marks := by
  cases cs with
  | nil =>
    refine .inr ⟨by simp, ?_⟩
    intro c hc hmark
    exact Bool.false_ne_true ((hrest c hc).symm.trans (List.all_eq_true.1 hmarks c hmark))
  | cons c more =>
    by_cases hc : c ∈ marks
    · exact .inl ⟨c, more, rfl, hc⟩
    · exact .inr ⟨by simpa using hc, by simpa using hc⟩

end Stops

/-- The exponent part of a literal behind its sign. -/
def readPower (l : Literal) (negative : Bool) (cs : List Char) : Option (Json × List Char) :=
  let digits := cs.takeWhile Char.isDigit
  let rest := cs.dropWhile Char.isDigit
  if digits.isEmpty then none
  else
    let power := Text.numeral 10 digits
    if largestExponent < power then
      if l.significand ≠ 0 ∧ !negative then none
      else some (.float (if l.negative then -0.0 else 0.0), rest)
    else
      let exponent := l.exponent + (if negative then -(power : Int) else power)
      (Number.PowerOfTen.read l.negative l.significand exponent).map fun x => (.float x, rest)

theorem readExponent_unsigned (l : Literal) {cs : List Char}
    (hcs : ∀ c ∈ cs.head?, c ∉ ['+', '-']) : readExponent l cs = readPower l false cs := by
  unfold readExponent
  split
  next negative rest hsign =>
  split at hsign
  · exact absurd (by decide) (hcs '+' rfl)
  · exact absurd (by decide) (hcs '-' rfl)
  · cases hsign
    rfl

theorem stretches_readPower (l : Literal) (negative : Bool) : Stretches (readPower l negative) := by
  intro cs rest hrest
  unfold readPower
  rw [hrest.takeWhile_append, hrest.dropWhile_append]
  dsimp only
  split
  · rfl
  split
  · split <;> rfl
  · cases Number.PowerOfTen.read _ _ _ <;> rfl

theorem stretches_readExponent (l : Literal) : Stretches (readExponent l) := by
  intro cs rest hrest
  rcases hrest.head_append ['+', '-'] (by decide) cs with
    ⟨c, more, rfl, hc⟩ | ⟨hcs, hboth⟩
  · simp only [List.mem_cons, List.not_mem_nil, or_false] at hc
    rcases hc with rfl | rfl
    · exact stretches_readPower l false more rest hrest
    · exact stretches_readPower l true more rest hrest
  · rw [readExponent_unsigned l hcs, readExponent_unsigned l hboth]
    exact stretches_readPower l false cs rest hrest

theorem readTail_scaled (l : Literal) {cs : List Char}
    (hcs : ∀ c ∈ cs.head?, c ∉ ['e', 'E']) : readTail l cs =
      (Number.PowerOfTen.read l.negative l.significand l.exponent).map fun x => (.float x, cs) := by
  unfold readTail
  split
  · exact absurd (by decide) (hcs 'e' rfl)
  · exact absurd (by decide) (hcs 'E' rfl)
  · rfl

theorem stretches_readTail (l : Literal) : Stretches (readTail l) := by
  intro cs rest hrest
  rcases hrest.head_append ['e', 'E'] (by decide) cs with
    ⟨c, more, rfl, hc⟩ | ⟨hcs, hboth⟩
  · simp only [List.mem_cons, List.not_mem_nil, or_false] at hc
    rcases hc with rfl | rfl <;> exact stretches_readExponent l more rest hrest
  · rw [readTail_scaled l hcs, readTail_scaled l hboth]
    cases Number.PowerOfTen.read _ _ _ <;> rfl

theorem stretches_readFraction (l : Literal) : Stretches (readFraction l) := by
  intro cs rest hrest
  unfold readFraction
  rw [hrest.readDigits_append]
  rcases readDigits l.significand 0 cs with ⟨significand, taken, ignored, left⟩
  dsimp only
  split
  · rfl
  · exact stretches_readTail _ left rest hrest

/-- What follows the digits of a number: a point, an exponent or something else. -/
def readBehind (negative : Bool) (significand ignored : Nat) (rest : List Char) :
    Option (Json × List Char) :=
  let l : Literal := ⟨negative, significand, ignored⟩
  match rest with
  | '.' :: more => readFraction l more
  | 'e' :: more => readExponent l more
  | 'E' :: more => readExponent l more
  | _ =>
    if ignored ≠ 0 then readTail l rest
    else if !negative then some (.int significand, rest)
    else if significand = 0 ∨ Nat.pow 2 63 < significand then
      some (.float (-(significand.toUInt64.toFloat)), rest)
    else some (.int (-(significand : Int)), rest)

theorem readBehind_whole (negative : Bool) (significand ignored : Nat) {cs : List Char}
    (hcs : ∀ c ∈ cs.head?, c ∉ ['.', 'e', 'E']) :
    readBehind negative significand ignored cs =
      if ignored ≠ 0 then readTail ⟨negative, significand, ignored⟩ cs
      else if !negative then some (.int significand, cs)
      else if significand = 0 ∨ Nat.pow 2 63 < significand then
        some (.float (-(significand.toUInt64.toFloat)), cs)
      else some (.int (-(significand : Int)), cs) := by
  unfold readBehind
  split
  · exact absurd (by decide) (hcs '.' rfl)
  · exact absurd (by decide) (hcs 'e' rfl)
  · exact absurd (by decide) (hcs 'E' rfl)
  · rfl

theorem stretches_readBehind (negative : Bool) (significand ignored : Nat) :
    Stretches (readBehind negative significand ignored) := by
  intro cs rest hrest
  rcases hrest.head_append ['.', 'e', 'E'] (by decide) cs with
    ⟨c, more, rfl, hc⟩ | ⟨hcs, hboth⟩
  · simp only [List.mem_cons, List.not_mem_nil, or_false] at hc
    rcases hc with rfl | rfl | rfl
    · exact stretches_readFraction _ more rest hrest
    · exact stretches_readExponent _ more rest hrest
    · exact stretches_readExponent _ more rest hrest
  · rw [readBehind_whole _ _ _ hcs, readBehind_whole _ _ _ hboth]
    split
    · exact stretches_readTail _ cs rest hrest
    split
    · rfl
    split <;> rfl

/-- Whether a number begins with a zero that more digits follow. -/
def padded : List Char → Bool
  | '0' :: c :: _ => c.isDigit
  | _ => false

theorem readNumber_eq (negative : Bool) (cs : List Char) :
    readNumber negative cs =
      match readDigits 0 0 cs with
      | (significand, taken, ignored, rest) =>
        if taken = 0 || padded cs then none else readBehind negative significand ignored rest :=
  rfl

theorem padded_append {rest : List Char} (hrest : Stops rest) (c : Char) (cs : List Char) :
    padded (c :: cs ++ rest) = padded (c :: cs) := by
  by_cases hc : c = '0'
  · subst hc
    cases cs with
    | cons c cs => rfl
    | nil =>
      cases rest with
      | nil => rfl
      | cons c more => exact hrest.cons_isDigit rfl
  · have hpadded : ∀ cs, padded (c :: cs) = false := by
      intro cs
      unfold padded
      split
      · next heq =>
        cases heq
        exact absurd rfl hc
      · rfl
    rw [hpadded]
    exact hpadded _

theorem stretches_readNumber (negative : Bool) : Stretches (readNumber negative) := by
  intro cs rest hrest
  rw [readNumber_eq, readNumber_eq, hrest.readDigits_append]
  cases cs with
  | nil => rfl
  | cons c cs =>
    rw [padded_append hrest]
    rcases readDigits 0 0 (c :: cs) with ⟨significand, taken, ignored, left⟩
    dsimp only
    split
    · rfl
    · exact stretches_readBehind negative significand ignored left rest hrest

/-! ## Numbers on their own -/

theorem readValue_numeric {c : Char} (hc : isNumeric c = true) (cs : List Char)
    (fuel depth : Nat) : readValue (fuel + 1) depth (c :: cs) =
      if c = '-' then readNumber true cs else readNumber false (c :: cs) := by
  unfold readValue
  rw [skipBlank_cons (not_isBlank_of_isNumeric hc)]
  split
  case h_5 =>
    next heq =>
      cases heq
      rfl
  case h_8 =>
    next hminus _ _ =>
      rw [if_neg]
      rintro rfl
      exact hminus cs rfl
  -- the other cases begin with characters of no number
  all_goals
    next heq =>
      cases heq
      cases hc

/-- A number reads the same wherever it stands, and what stops it is left. -/
theorem readValue_append {body : List Char} (hbody : IsNumeral body) {rest : List Char}
    (hrest : Stops rest) (fuel fuel' depth depth' : Nat) :
    readValue (fuel + 1) depth (body ++ rest) =
      (readValue (fuel' + 1) depth' body).map fun r => (r.1, r.2 ++ rest) := by
  obtain ⟨hne, hall⟩ := hbody
  cases body with
  | nil => exact absurd rfl hne
  | cons c body =>
    rw [List.all_cons, Bool.and_eq_true] at hall
    rw [List.cons_append, readValue_numeric hall.1, readValue_numeric hall.1]
    split
    · exact stretches_readNumber true body rest hrest
    · exact stretches_readNumber false (c :: body) rest hrest

/-- A number that reads on its own is read in front of anything that stops it. -/
theorem readValue_of_read {body : List Char} (hbody : IsNumeral body) {j : Json}
    (hread : read (String.ofList body) = some j) {rest : List Char} (hrest : Stops rest)
    (fuel depth : Nat) : readValue (fuel + 1) depth (body ++ rest) = some (j, rest) := by
  unfold read at hread
  rw [String.toList_ofList] at hread
  dsimp only at hread
  split at hread
  · next value left hvalue =>
    split at hread
    · next hblank =>
      cases hread
      have hleft : Stops left := by
        apply stops_of_skipBlank
        rw [List.isEmpty_iff.1 hblank]
        exact stops_nil
      have hnumeral := reads_numeral (j := .null) rfl hbody [] (body.length + 1) depthLimit
      rw [List.append_nil] at hnumeral
      obtain ⟨-, rfl⟩ := hnumeral j left hvalue stops_nil hleft
      rw [readValue_append hbody hrest fuel body.length depth depthLimit, hvalue]
      rfl
    · cases hread
  · cases hread

/-! ## Whole numbers -/

theorem le_ofDigitChars (ds : List Char) (n : Nat) : n ≤ Nat.ofDigitChars 10 ds n := by
  induction ds generalizing n with
  | nil => exact Nat.le_refl n
  | cons c ds ih =>
    rw [Nat.ofDigitChars_cons]
    have hmore := ih (10 * n + (c.toNat - '0'.toNat))
    omega

/-- All digits are taken as long as the number that they stand for is one of 64 bits. -/
theorem readDigits_eq {ds : List Char} (hds : ds.all Char.isDigit) (n taken : Nat)
    (hfits : Nat.ofDigitChars 10 ds n < UInt64.size) :
    readDigits n taken ds = (Nat.ofDigitChars 10 ds n, taken + ds.length, 0, []) := by
  induction ds generalizing n taken with
  | nil => rfl
  | cons c ds ih =>
    rw [List.all_cons, Bool.and_eq_true] at hds
    rw [Nat.ofDigitChars_cons, Nat.mul_comm] at hfits ⊢
    have hle := le_ofDigitChars ds (n * 10 + (c.toNat - '0'.toNat))
    rw [readDigits, if_pos hds.1]
    dsimp only
    rw [Text.digitValue, if_pos (by omega), ih hds.2 _ _ hfits, List.length_cons, Nat.add_assoc,
      Nat.add_comm 1]

theorem head?_toDigits {n : Nat} (h : (Nat.toDigits 10 n).head? = some '0') : n = 0 := by
  induction n using Nat.strongRecOn with
  | ind n ih =>
    by_cases hn : n < 10
    · rw [Nat.toDigits_of_lt_base hn] at h
      revert h
      interval_cases n <;> decide
    · rw [Nat.toDigits_of_base_le (by decide) (by omega), List.head?_append] at h
      have hmore := ih (n / 10) (by omega)
      cases hhead : (Nat.toDigits 10 (n / 10)).head? with
      | none => exact absurd (List.head?_eq_none_iff.1 hhead) Nat.toDigits_ne_nil
      | some c =>
        rw [hhead] at h hmore
        have hzero := hmore h
        omega

theorem padded_toDigits (n : Nat) : padded (Nat.toDigits 10 n) = false := by
  unfold padded
  split
  · next c more heq =>
    have hn := head?_toDigits (n := n) (by rw [heq]; rfl)
    subst hn
    cases heq
  · rfl

theorem readNumber_toDigits {n : Nat} (hn : n < UInt64.size) :
    readNumber false (Nat.toDigits 10 n) = some (.int n, []) := by
  have hdigits : (Nat.toDigits 10 n).all Char.isDigit := by
    rw [List.all_eq_true]
    exact fun c hc => Nat.isDigit_of_mem_toDigits (by decide) (by decide) hc
  have hvalue : Nat.ofDigitChars 10 (Nat.toDigits 10 n) 0 = n :=
    Nat.ofDigitChars_toDigits (by decide) (by decide)
  rw [readNumber_eq, padded_toDigits, readDigits_eq hdigits 0 0 (by rw [hvalue]; exact hn), hvalue]
  dsimp only
  rw [Nat.zero_add, if_neg (by simp), readBehind_whole _ _ _ (by simp)]
  rfl

/-- A natural number of at most 64 bits reads as itself. -/
theorem read_int {n : Nat} (hn : n < UInt64.size) : read (toText (.int n)) = some (.int n) := by
  have hwrite : write (.int n) [] = Nat.toDigits 10 n := by
    rw [write, intText, if_neg (by omega), Int.natAbs_natCast, List.append_nil]
  unfold read toText
  rw [String.toList_ofList, hwrite]
  cases hdigits : Nat.toDigits 10 n with
  | nil => exact absurd hdigits Nat.toDigits_ne_nil
  | cons c cs =>
    have hc : c.isDigit = true :=
      Nat.isDigit_of_mem_toDigits (b := 10) (n := n) (by decide) (by decide) (by simp [hdigits])
    have hminus : c ≠ '-' := by
      rintro rfl
      cases hc
    dsimp only
    rw [readValue_numeric (isNumeric_of_isDigit hc), if_neg hminus, ← hdigits,
      readNumber_toDigits hn]
    rfl

/-! ## Whole values -/

mutual

/-- Whether a value of at most some levels is read as another one: a number is read on its own as
another number or as null, everything else as itself, and a list or an object takes a level. -/
inductive Reread : Nat → Json → Json → Prop
  | null (n : Nat) : Reread n .null .null
  | bool (n : Nat) (b : Bool) : Reread n (.bool b) (.bool b)
  | number (n : Nat) {j j' : Json} (hj : isNumber j) (hread : read j.toText = some j') :
      Reread n j j'
  | text (n : Nat) (s : String) : Reread n (.text s) (.text s)
  | list {n : Nat} {js js' : List Json} (h : RereadElements n js js') :
      Reread (n + 1) (.list js) (.list js')
  | object {n : Nat} {fields fields' : List (String × Json)} (h : RereadFields n fields fields') :
      Reread (n + 1) (.object fields) (.object fields')

inductive RereadElements : Nat → List Json → List Json → Prop
  | nil (n : Nat) : RereadElements n [] []
  | cons {n : Nat} {j j' : Json} {js js' : List Json} (hj : Reread n j j')
      (hjs : RereadElements n js js') : RereadElements n (j :: js) (j' :: js')

inductive RereadFields : Nat → List (String × Json) → List (String × Json) → Prop
  | nil (n : Nat) : RereadFields n [] []
  | cons {n : Nat} {name : String} {j j' : Json} {fields fields' : List (String × Json)}
      (hj : Reread n j j') (hfields : RereadFields n fields fields') :
      RereadFields n ((name, j) :: fields) ((name, j') :: fields')

end

theorem IsNumeral.length_append {body : List Char} (hbody : IsNumeral body) (rest : List Char) :
    rest.length < (body ++ rest).length := by
  have hpos := List.length_pos_iff.2 hbody.1
  rw [List.length_append]
  omega

theorem length_writeText (s : String) (rest : List Char) :
    rest.length < (writeText s rest).length := by
  simp only [writeText, List.length_cons, List.length_append]
  omega

mutual

/-- Every value has a text of its own in front of what follows. -/
theorem length_write (j : Json) (rest : List Char) : rest.length < (write j rest).length := by
  cases j with
  | null =>
    simp only [write, List.length_cons]
    omega
  | bool b =>
    cases b <;>
    · simp only [write, List.length_cons]
      omega
  | int n => exact (isNumeral_intText n).length_append rest
  | float x =>
    rw [write]
    rcases floatText_eq x with hnull | hx
    · simp only [hnull, List.length_append, List.length_cons]
      omega
    · exact hx.length_append rest
  | text s =>
    rw [write]
    exact length_writeText s rest
  | list js =>
    have hjs := length_writeElements true js rest
    rw [write, List.length_cons]
    omega
  | object fields =>
    have hfields := length_writeFields true fields rest
    rw [write, List.length_cons]
    omega

theorem length_writeElements (first : Bool) (js : List Json) (rest : List Char) :
    rest.length < (writeElements first js rest).length := by
  cases js with
  | nil =>
    rw [writeElements, List.length_cons]
    omega
  | cons j js =>
    have hj := length_write j (writeElements false js rest)
    have hjs := length_writeElements false js rest
    cases first
    · rw [writeElements, List.length_cons]
      omega
    · rw [writeElements]
      omega

theorem length_writeFields (first : Bool) (fields : List (String × Json)) (rest : List Char) :
    rest.length < (writeFields first fields rest).length := by
  rcases fields with _ | ⟨⟨name, j⟩, fields⟩
  · rw [writeFields, List.length_cons]
    omega
  · have hname := length_writeText name (':' :: write j (writeFields false fields rest))
    have hj := length_write j (writeFields false fields rest)
    have hfields := length_writeFields false fields rest
    rw [List.length_cons] at hname
    cases first
    · rw [writeFields, List.length_cons]
      omega
    · rw [writeFields]
      omega

end

theorem isNumber_cases {j : Json} (hj : isNumber j) (rest : List Char) :
    ∃ body, write j rest = body ++ rest ∧ j.toText = String.ofList body ∧
      (body = ['n', 'u', 'l', 'l'] ∨ IsNumeral body) := by
  cases j with
  | int n => exact ⟨intText n, rfl, by simp [toText, write], .inr (isNumeral_intText n)⟩
  | float x => exact ⟨floatText x, rfl, by simp [toText, write], floatText_eq x⟩
  | _ => cases hj

theorem readValue_number {j j' : Json} (hj : isNumber j) (hread : read j.toText = some j')
    {rest : List Char} (hrest : Stops rest) (fuel depth : Nat) :
    readValue (fuel + 1) depth (write j rest) = some (j', rest) := by
  obtain ⟨body, hwrite, htext, hnull | hbody⟩ := isNumber_cases hj rest
  · rw [htext, hnull] at hread
    cases hread
    rw [hwrite, hnull]
    rfl
  · rw [htext] at hread
    rw [hwrite]
    exact readValue_of_read hbody hread hrest fuel depth

mutual

/-- A value of few enough levels is read in front of anything that stops numbers. -/
theorem readValue_reread {n : Nat} {j j' : Json} (h : Reread n j j') {rest : List Char}
    (hrest : Stops rest) {fuel : Nat} (hfuel : (write j rest).length ≤ fuel + rest.length) :
    readValue fuel (n + 1) (write j rest) = some (j', rest) := by
  cases fuel with
  | zero =>
    have hlength := length_write j rest
    omega
  | succ fuel =>
    cases h with
    | null n => rfl
    | bool n b => cases b <;> rfl
    | number n hj hread => exact readValue_number hj hread hrest fuel (n + 1)
    | text n s => exact readValue_text rest fuel (n + 1) s
    | list h =>
      cases h with
      | nil n => rfl
      | cons hj hjs =>
        rw [write, List.length_cons, writeElements] at hfuel
        rw [readValue_list, if_neg (by omega), Nat.add_sub_cancel,
          readElements_reread hj hjs (by omega)]
        rfl
    | object h =>
      cases h with
      | nil n => rfl
      | cons hj hfields =>
        rw [write, List.length_cons, writeFields] at hfuel
        rw [readValue_object, if_neg (by omega), Nat.add_sub_cancel,
          readFields_reread hj hfields (by omega)]
        rfl
termination_by fuel

theorem readElements_reread {n : Nat} {j j' : Json} {js js' : List Json} (hj : Reread n j j')
    (hjs : RereadElements n js js') {rest : List Char} {fuel : Nat} {read : List Json}
    (hfuel : (write j (writeElements false js rest)).length ≤ fuel + rest.length) :
    readElements fuel (n + 1) read (write j (writeElements false js rest)) =
      some (read.reverse ++ j' :: js', rest) := by
  have hlength := length_write j (writeElements false js rest)
  have htail := length_writeElements false js rest
  cases fuel with
  | zero => omega
  | succ fuel =>
    rw [readElements, readValue_reread hj (stops_writeElements js rest) (by omega)]
    cases hjs with
    | nil n =>
      change some ((j' :: read).reverse, rest) = _
      rw [List.reverse_cons]
    | @cons n k k' more more' hk hmore =>
      rw [writeElements] at hfuel hlength
      rw [List.length_cons] at hlength
      change readElements fuel (n + 1) (j' :: read) (write k (writeElements false more rest)) = _
      rw [readElements_reread hk hmore (by omega), List.reverse_cons, List.append_assoc]
      rfl
termination_by fuel

theorem readFields_reread {n : Nat} {name : String} {j j' : Json}
    {fields fields' : List (String × Json)} (hj : Reread n j j')
    (hfields : RereadFields n fields fields') {rest : List Char} {fuel : Nat}
    {read : List (String × Json)}
    (hfuel : (writeText name (':' :: write j (writeFields false fields rest))).length ≤
      fuel + rest.length) :
    readFields fuel (n + 1) read
        (writeText name (':' :: write j (writeFields false fields rest))) =
      some (read.reverse ++ (name, j') :: fields', rest) := by
  have hname := length_writeText name (':' :: write j (writeFields false fields rest))
  have hlength := length_write j (writeFields false fields rest)
  have htail := length_writeFields false fields rest
  rw [List.length_cons] at hname
  cases fuel with
  | zero => omega
  | succ fuel =>
    rw [readFields_eq, readValue_reread hj (stops_writeFields fields rest) (by omega)]
    cases hfields with
    | nil n =>
      change some (((name, j') :: read).reverse, rest) = _
      rw [List.reverse_cons]
    | @cons n next k k' more more' hk hmore =>
      rw [writeFields, List.length_cons] at hlength
      rw [writeFields] at hname hfuel
      change readFields fuel (n + 1) ((name, j') :: read)
        (writeText next (':' :: write k (writeFields false more rest))) = _
      rw [readFields_reread hk hmore (by omega), List.reverse_cons, List.append_assoc]
      rfl
termination_by fuel

end

/-- The text of a value of at most 127 levels reads as the value that it rereads as. -/
theorem read_reread {j j' : Json} (h : Reread 127 j j') : read j.toText = some j' := by
  unfold read toText
  rw [String.toList_ofList]
  dsimp only
  rw [depthLimit, readValue_reread h stops_nil (by simp)]
  rfl

end Jukebox.Json
