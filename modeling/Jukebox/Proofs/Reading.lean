import Jukebox.Json.Reader
import Jukebox.Json.Writer
import Mathlib.Data.List.Forall2

/-!
# Reading what was written

The text of a value reads as a value like it (`Json.alike_of_read`): texts come back as they were,
lists and objects with as many parts and with the same names, while numbers only come back as plain
values. Whether a text can be read at all is not told here, since too many lists inside one another
or a number that is no float can not.

The reader takes a number for as long as its characters go on, and behind a number the writer puts a
character that belongs to none. So it is enough to know of which characters the text of a number is
made (`isNumeral_layout`) and which ones the reader takes (`readNumber_takes`), and the digits
themselves play no part.
-/

namespace Jukebox.Json

/-! ## Texts in quotes -/

theorem hexNumeral_escape {n : Nat} (hn : n < 32) :
    Text.hexNumeral ['0', '0', hexDigit (n / 16), hexDigit n] = some n := by
  revert n
  decide

theorem readText_escaped (read : List Char) (c : Char) (rest : List Char) :
    readText read (escaped c ++ rest) = readText (c :: read) rest := by
  unfold escaped
  split
  · next h => subst h; rfl
  split
  · next h => subst h; rfl
  split
  · next h => subst h; rfl
  split
  · next h => subst h; rfl
  split
  · next h => subst h; rfl
  split
  · next h => subst h; rfl
  split
  · next h => subst h; rfl
  split
  · next hcontrol =>
    have hopens : opensPair c.toNat = false := by
      simp [opensPair]
      omega
    have hcloses : closesPair c.toNat = false := by
      simp [closesPair]
      omega
    simp only [List.cons_append, List.nil_append]
    rw [readText]
    simp only [hexNumeral_escape hcontrol, hopens, hcloses]
    simp
  · next hquote hslash _ _ _ _ _ hcontrol =>
    simp only [List.cons_append, List.nil_append]
    rw [readText]
    · rw [if_neg hcontrol]
    all_goals simp_all

theorem readText_escapes (s : String) (rest : List Char) :
    readText [] (s.toList.flatMap escaped ++ '"' :: rest) = some (s, rest) := by
  have hread : ∀ (cs read : List Char), readText read (cs.flatMap escaped ++ '"' :: rest) =
      some (String.ofList (read.reverse ++ cs), rest) := by
    intro cs
    induction cs with
    | nil =>
      intro read
      simp [readText]
    | cons c cs ih =>
      intro read
      rw [List.flatMap_cons, List.append_assoc, readText_escaped, ih]
      simp
  simpa using hread s.toList []

/-! ## Characters of numbers -/

/-- Whether a character may stand in a number. -/
def isNumeric (c : Char) : Bool := c.isDigit || c ∈ ['.', 'e', 'E', '+', '-']

/-- Whether a text does not go on with a character of a number. -/
def Stops (cs : List Char) : Prop := ∀ c ∈ cs.head?, isNumeric c = false

/-- Whether a text goes on with `rest` behind characters of numbers. -/
def Takes (cs rest : List Char) : Prop := ∃ taken, cs = taken ++ rest ∧ taken.all isNumeric

theorem isNumeric_of_isDigit {c : Char} (hc : c.isDigit = true) : isNumeric c = true := by
  simp [isNumeric, hc]

theorem not_isBlank_of_isNumeric {c : Char} (hc : isNumeric c = true) : isBlank c = false := by
  by_contra hblank
  simp only [Bool.not_eq_false, isBlank, Bool.or_eq_true, decide_eq_true_eq] at hblank
  rcases hblank with ((rfl | rfl) | rfl) | rfl <;> cases hc

theorem stops_nil : Stops [] := fun _ hc => nomatch hc

theorem stops_cons {c : Char} (hc : isNumeric c = false) (cs : List Char) : Stops (c :: cs) := by
  intro c' hc'
  cases hc'
  exact hc

theorem skipBlank_cons {c : Char} (hc : isBlank c = false) (cs : List Char) :
    skipBlank (c :: cs) = c :: cs :=
  List.dropWhile_cons_of_neg (by simp [hc])

/-- Blanks belong to no number. -/
theorem stops_of_skipBlank {cs : List Char} (h : Stops (skipBlank cs)) : Stops cs := by
  cases cs with
  | nil => exact stops_nil
  | cons c cs =>
    refine stops_cons ?_ cs
    cases hc : isNumeric c with
    | false => rfl
    | true =>
      rw [skipBlank_cons (not_isBlank_of_isNumeric hc)] at h
      rw [← h c rfl, hc]

theorem stops_of_skipBlank_eq {cs rest : List Char} {c : Char} (hskip : skipBlank cs = c :: rest)
    (hc : isNumeric c = false) : Stops cs :=
  stops_of_skipBlank (hskip ▸ stops_cons hc rest)

namespace Takes

theorem refl (cs : List Char) : Takes cs cs := ⟨[], rfl, rfl⟩

theorem cons {c : Char} {cs rest : List Char} (hc : isNumeric c = true) (h : Takes cs rest) :
    Takes (c :: cs) rest := by
  obtain ⟨taken, rfl, htaken⟩ := h
  exact ⟨c :: taken, rfl, by simp [hc, htaken]⟩

theorem trans {cs cs' rest : List Char} (h : Takes cs cs') (h' : Takes cs' rest) :
    Takes cs rest := by
  obtain ⟨taken, rfl, htaken⟩ := h
  obtain ⟨taken', rfl, htaken'⟩ := h'
  exact ⟨taken ++ taken', by simp, by simp [htaken, htaken']⟩

theorem dropWhile (cs : List Char) : Takes cs (cs.dropWhile Char.isDigit) := by
  refine ⟨cs.takeWhile Char.isDigit, List.takeWhile_append_dropWhile.symm, ?_⟩
  rw [List.all_eq_true]
  exact fun c hc => isNumeric_of_isDigit (List.all_eq_true.1 List.all_takeWhile c hc)

/-- What stops behind a number is what the number stands in front of. -/
theorem eq_of_stops {body rest rest' : List Char} (h : Takes (body ++ rest) rest')
    (hbody : body.all isNumeric) (hrest : Stops rest) (hrest' : Stops rest') : rest' = rest := by
  obtain ⟨taken, heq, htaken⟩ := h
  rw [List.all_eq_true] at hbody htaken
  rcases List.append_eq_append_iff.1 heq with ⟨between, rfl, rfl⟩ | ⟨between, rfl, rfl⟩
  · cases between with
    | nil => rfl
    | cons c between =>
      have hc := htaken c (by simp)
      rw [hrest c rfl] at hc
      cases hc
  · cases between with
    | nil => rfl
    | cons c between =>
      have hc := hbody c (by simp)
      rw [hrest' c rfl] at hc
      cases hc

end Takes

/-! ## What the reader takes for a number -/

def isNumber : Json → Bool
  | int _ => true
  | float _ => true
  | _ => false

/-- Whether a result is a number read from the characters of one, if there is a result. -/
def TakesNumber (cs : List Char) (result : Option (Json × List Char)) : Prop :=
  ∀ j rest, result = some (j, rest) → isNumber j ∧ Takes cs rest

namespace TakesNumber

theorem none (cs : List Char) : TakesNumber cs none := fun _ _ h => nomatch h

theorem some {j : Json} {cs rest : List Char} (hj : isNumber j) (h : Takes cs rest) :
    TakesNumber cs (some (j, rest)) := by
  intro j' rest' heq
  cases heq
  exact ⟨hj, h⟩

theorem map {cs rest : List Char} (x : Option Float) (h : Takes cs rest) :
    TakesNumber cs (x.map fun x => (.float x, rest)) := by
  cases x with
  | none => exact none cs
  | some x => exact some rfl h

theorem ite (p : Prop) [Decidable p] {cs : List Char} {a b : Option (Json × List Char)}
    (ha : TakesNumber cs a) (hb : TakesNumber cs b) : TakesNumber cs (if p then a else b) := by
  split
  · exact ha
  · exact hb

theorem after {cs cs' : List Char} {result : Option (Json × List Char)}
    (hresult : TakesNumber cs' result) (h : Takes cs cs') : TakesNumber cs result := by
  intro j rest heq
  obtain ⟨hj, hrest⟩ := hresult j rest heq
  exact ⟨hj, h.trans hrest⟩

end TakesNumber

theorem readDigits_takes (significand taken : Nat) (cs : List Char) :
    Takes cs (readDigits significand taken cs).2.2.2 := by
  induction cs generalizing significand taken with
  | nil => exact .refl []
  | cons c cs ih =>
    unfold readDigits
    split
    · next hc =>
      dsimp only
      split
      · exact .cons (isNumeric_of_isDigit hc) (ih _ _)
      · exact .cons (isNumeric_of_isDigit hc) (.dropWhile cs)
    · exact .refl _

theorem readExponent_takes (l : Literal) (cs : List Char) :
    TakesNumber cs (readExponent l cs) := by
  unfold readExponent
  split
  next negative rest hsign =>
  have hrest : Takes cs rest := by
    split at hsign <;> cases hsign
    · exact .cons rfl (.refl _)
    · exact .cons rfl (.refl _)
    · exact .refl _
  refine .after ?_ hrest
  have hdigits := Takes.dropWhile rest
  refine .ite _ (.none rest) (.ite _ ?_ (.map _ hdigits))
  exact .ite _ (.none rest) (.some rfl hdigits)

theorem readTail_takes (l : Literal) (cs : List Char) : TakesNumber cs (readTail l cs) := by
  unfold readTail
  split
  · exact (readExponent_takes l _).after (.cons rfl (.refl _))
  · exact (readExponent_takes l _).after (.cons rfl (.refl _))
  · exact .map _ (.refl cs)

theorem readFraction_takes (l : Literal) (cs : List Char) : TakesNumber cs (readFraction l cs) := by
  have hdigits := readDigits_takes l.significand 0 cs
  unfold readFraction
  split
  next significand taken ignored rest hread =>
  rw [hread] at hdigits
  exact .ite _ (.none cs) ((readTail_takes _ rest).after hdigits)

theorem readNumber_takes (negative : Bool) (cs : List Char) :
    TakesNumber cs (readNumber negative cs) := by
  have hdigits := readDigits_takes 0 0 cs
  rcases hread : readDigits 0 0 cs with ⟨significand, taken, ignored, rest⟩
  rw [hread] at hdigits
  simp only [readNumber, hread]
  refine .ite _ (.none cs) (.after ?_ hdigits)
  split
  · exact (readFraction_takes _ _).after (.cons rfl (.refl _))
  · exact (readExponent_takes _ _).after (.cons rfl (.refl _))
  · exact (readExponent_takes _ _).after (.cons rfl (.refl _))
  · refine .ite _ (readTail_takes _ rest) (.ite _ (.some rfl (.refl _)) ?_)
    exact .ite _ (.some rfl (.refl _)) (.some rfl (.refl _))

theorem readValue_takes {c : Char} (hc : isNumeric c = true) (cs : List Char) (fuel depth : Nat) :
    TakesNumber (c :: cs) (readValue fuel depth (c :: cs)) := by
  cases fuel with
  | zero => exact .none _
  | succ fuel =>
    unfold readValue
    rw [skipBlank_cons (not_isBlank_of_isNumeric hc)]
    split
    case h_5 =>
      next heq =>
        cases heq
        exact (readNumber_takes true _).after (.cons hc (.refl _))
    case h_8 => exact readNumber_takes false _
    -- the other cases begin with characters of no number
    all_goals
      next heq =>
        cases heq
        cases hc

/-! ## What the writer writes for a number -/

/-- Whether a text is made of characters of numbers, and not empty. -/
def IsNumeral (cs : List Char) : Prop := cs ≠ [] ∧ cs.all isNumeric

theorem all_isNumeric_toDigits (n : Nat) : (Nat.toDigits 10 n).all isNumeric := by
  rw [List.all_eq_true]
  exact fun c hc => isNumeric_of_isDigit (Nat.isDigit_of_mem_toDigits (by decide) (by decide) hc)

theorem all_isNumeric_replicate (n : Nat) : (List.replicate n '0').all isNumeric := by
  rw [List.all_eq_true]
  intro c hc
  rw [List.eq_of_mem_replicate hc]
  rfl

theorem all_isNumeric_split {cs : List Char} (h : cs.all isNumeric) (n : Nat) :
    (cs.take n).all isNumeric ∧ (cs.drop n).all isNumeric := by
  simp only [List.all_eq_true] at h ⊢
  exact ⟨fun c hc => h c (List.mem_of_mem_take hc), fun c hc => h c (List.mem_of_mem_drop hc)⟩

theorem isNumeral_intText (n : Int) : IsNumeral (intText n) := by
  have hdigits := all_isNumeric_toDigits n.natAbs
  unfold intText
  split
  · exact ⟨List.cons_ne_nil _ _, by simpa [isNumeric] using hdigits⟩
  · exact ⟨Nat.toDigits_ne_nil, hdigits⟩

theorem isNumeral_layout (d : Number.Shortest.Decimal) : IsNumeral (layout d) := by
  have hdigits := all_isNumeric_toDigits d.digits
  have hpart := all_isNumeric_split hdigits
  unfold layout
  dsimp only
  split
  · refine ⟨by simp, ?_⟩
    rw [List.all_append, List.all_append, hdigits, all_isNumeric_replicate]
    rfl
  split
  · refine ⟨by simp, ?_⟩
    rw [List.all_append, List.all_cons, (hpart _).1, (hpart _).2]
    rfl
  split
  · refine ⟨List.cons_ne_nil _ _, ?_⟩
    rw [List.all_cons, List.all_cons, List.all_append, all_isNumeric_replicate, hdigits]
    rfl
  · have hpower : ∀ power : Int,
        ((if power < 0 then ['-'] else []) ++ Nat.toDigits 10 power.natAbs).all isNumeric := by
      intro power
      rw [List.all_append, all_isNumeric_toDigits]
      split <;> rfl
    refine ⟨by simp, ?_⟩
    rw [List.all_append, List.all_cons, hpower]
    split
    · rw [hdigits]
      rfl
    · rw [List.all_append, List.all_cons, (hpart _).1, (hpart _).2]
      rfl

/-- The text of a float is that of a number, or null. -/
theorem floatText_eq (x : Float) :
    floatText x = ['n', 'u', 'l', 'l'] ∨ IsNumeral (floatText x) := by
  unfold floatText
  split
  · next negative significand exponent _ =>
    have hbody : IsNumeral (if significand = 0 then ['0', '.', '0']
        else layout (Number.Shortest.decimal significand exponent)) := by
      split
      · exact ⟨by simp, rfl⟩
      · exact isNumeral_layout _
    right
    dsimp only
    split
    · refine ⟨List.cons_ne_nil _ _, ?_⟩
      rw [List.all_cons, hbody.2]
      rfl
    · exact hbody
  · exact .inl rfl

/-! ## Values that are alike -/

/-- Whether a value is no text and holds no others. -/
def isPlain : Json → Bool
  | text _ => false
  | list _ => false
  | object _ => false
  | _ => true

/-- Whether two values differ in numbers, truth values and nulls at most. -/
inductive Alike : Json → Json → Prop
  | plain {a b : Json} (ha : isPlain a) (hb : isPlain b) : Alike a b
  | text (s : String) : Alike (.text s) (.text s)
  | list {as bs : List Json} (h : List.Forall₂ Alike as bs) : Alike (.list as) (.list bs)
  | object {as bs : List (String × Json)} (hnames : as.map (·.1) = bs.map (·.1))
      (hvalues : List.Forall₂ Alike (as.map (·.2)) (bs.map (·.2))) :
      Alike (.object as) (.object bs)

theorem isPlain_of_isNumber {j : Json} (hj : isNumber j) : isPlain j := by
  cases j <;> first | rfl | cases hj

theorem Alike.eq_text {s : String} {j : Json} (h : Alike (.text s) j) : j = .text s := by
  cases h with
  | plain ha => cases ha
  | text => rfl

theorem Alike.eq_list {js : List Json} {j : Json} (h : Alike (.list js) j) :
    ∃ js', j = .list js' ∧ List.Forall₂ Alike js js' := by
  cases h with
  | plain ha => cases ha
  | list h => exact ⟨_, rfl, h⟩

/-! ## Whole values -/

/-- Whether a result is like a value and goes on behind it, if there is a result that stops where
a value may. -/
def Reads (j : Json) (rest : List Char) (result : Option (Json × List Char)) : Prop :=
  ∀ j' rest', result = some (j', rest') → Stops rest → Stops rest' → Alike j j' ∧ rest' = rest

theorem reads_exactly {j j' : Json} (h : Alike j j') (rest : List Char) :
    Reads j rest (some (j', rest)) := by
  intro _ _ heq _ _
  cases heq
  exact ⟨h, rfl⟩

theorem reads_numeral {j : Json} (hj : isPlain j) {body : List Char} (hbody : IsNumeral body)
    (rest : List Char) (fuel depth : Nat) :
    Reads j rest (readValue fuel depth (body ++ rest)) := by
  intro j' rest' hread hrest hrest'
  obtain ⟨hne, hall⟩ := hbody
  cases body with
  | nil => exact absurd rfl hne
  | cons c body =>
    have hc : isNumeric c = true := by
      rw [List.all_cons, Bool.and_eq_true] at hall
      exact hall.1
    obtain ⟨hnumber, htakes⟩ := readValue_takes hc (body ++ rest) fuel depth j' rest' hread
    exact ⟨.plain hj (isPlain_of_isNumber hnumber), htakes.eq_of_stops hall hrest hrest'⟩

/-- The text of a value begins with a character that is no blank and closes no list. -/
theorem write_eq_cons (j : Json) (rest : List Char) :
    ∃ c cs, write j rest = c :: cs ∧ isBlank c = false ∧ c ≠ ']' := by
  have hnumeral : ∀ body, IsNumeral body →
      ∃ c cs, body ++ rest = c :: cs ∧ isBlank c = false ∧ c ≠ ']' := by
    rintro body ⟨hne, hall⟩
    cases body with
    | nil => exact absurd rfl hne
    | cons c body =>
      rw [List.all_cons, Bool.and_eq_true] at hall
      refine ⟨c, body ++ rest, rfl, not_isBlank_of_isNumeric hall.1, ?_⟩
      rintro rfl
      cases hall.1
  unfold write
  cases j with
  | bool b => cases b <;> exact ⟨_, _, rfl, by decide, by decide⟩
  | int n => exact hnumeral _ (isNumeral_intText n)
  | float x =>
    rcases floatText_eq x with hnull | hx
    · dsimp only
      rw [hnull]
      exact ⟨_, _, rfl, by decide, by decide⟩
    · exact hnumeral _ hx
  | _ => exact ⟨_, _, rfl, by decide, by decide⟩

section Equations

variable (rest : List Char) (fuel depth : Nat)

theorem readValue_text (s : String) :
    readValue (fuel + 1) depth (write (.text s) rest) = some (.text s, rest) := by
  change (readText [] (s.toList.flatMap escaped ++ '"' :: rest)).map _ = _
  rw [readText_escapes]
  rfl

theorem readValue_list (j : Json) (more : List Json) :
    readValue (fuel + 1) depth (write (.list (j :: more)) rest) =
      if depth ≤ 1 then none
      else (readElements fuel (depth - 1) [] (write j (writeElements false more rest))).map
        fun (js, rest) => (.list js, rest) := by
  obtain ⟨c, cs, heq, hblank, hopen⟩ := write_eq_cons j (writeElements false more rest)
  have hskip : skipBlank (write j (writeElements false more rest)) = c :: cs := by
    rw [heq, skipBlank_cons hblank]
  have hwrite : write (.list (j :: more)) rest =
      '[' :: write j (writeElements false more rest) :=
    rfl
  have hbracket : skipBlank ('[' :: write j (writeElements false more rest)) =
      '[' :: write j (writeElements false more rest) :=
    skipBlank_cons rfl _
  rw [hwrite]
  simp only [readValue, hbracket, hskip]
  split
  · rfl
  · split
    · next hclose =>
      cases hclose
      exact absurd rfl hopen
    · rfl

theorem readValue_object (name : String) (j : Json) (more : List (String × Json)) :
    readValue (fuel + 1) depth (write (.object ((name, j) :: more)) rest) =
      if depth ≤ 1 then none
      else (readFields fuel (depth - 1) []
        (writeText name (':' :: write j (writeFields false more rest)))).map
        fun (fields, rest) => (.object fields, rest) :=
  rfl

theorem readFields_eq (read : List (String × Json)) (name : String) (tail : List Char) :
    readFields (fuel + 1) depth read (writeText name (':' :: tail)) =
      match readValue fuel depth tail with
      | none => none
      | some (j, rest) =>
        match skipBlank rest with
        | ',' :: rest => readFields fuel depth ((name, j) :: read) rest
        | '}' :: rest => some (((name, j) :: read).reverse, rest)
        | _ => none := by
  have hquote : skipBlank ('"' :: (name.toList.flatMap escaped ++ '"' :: ':' :: tail)) =
      '"' :: (name.toList.flatMap escaped ++ '"' :: ':' :: tail) :=
    skipBlank_cons rfl _
  simp only [readFields, writeText, hquote, readText_escapes]
  rfl

end Equations

theorem stops_writeElements (js : List Json) (rest : List Char) :
    Stops (writeElements false js rest) := by
  cases js <;> exact stops_cons (by decide) _

theorem stops_writeFields (fields : List (String × Json)) (rest : List Char) :
    Stops (writeFields false fields rest) := by
  rcases fields with _ | ⟨⟨name, j⟩, more⟩ <;> exact stops_cons (by decide) _

mutual

/-- The text of a value reads as a value like it. -/
theorem readValue_write (j : Json) (rest : List Char) (fuel depth : Nat) :
    Reads j rest (readValue fuel depth (write j rest)) := by
  cases fuel with
  | zero => exact fun _ _ h => nomatch h
  | succ fuel =>
    cases j with
    | null => exact reads_exactly (.plain rfl rfl) rest
    | bool b => cases b <;> exact reads_exactly (.plain rfl rfl) rest
    | int n => exact reads_numeral rfl (isNumeral_intText n) rest _ depth
    | float x =>
      unfold write
      rcases floatText_eq x with hnull | hnumeral
      · rw [hnull]
        exact reads_exactly (.plain rfl rfl) rest
      · exact reads_numeral rfl hnumeral rest _ depth
    | text s =>
      rw [readValue_text]
      exact reads_exactly (.text s) rest
    | list js =>
      cases js with
      | nil =>
        intro j' rest' hread _ _
        change (if depth ≤ 1 then none else some (.list [], rest)) = some (j', rest') at hread
        split at hread <;> cases hread
        exact ⟨.list .nil, rfl⟩
      | cons k more =>
        rw [readValue_list]
        intro j' rest' hread _ _
        split at hread
        · cases hread
        · obtain ⟨⟨js', left⟩, helements, heq⟩ := Option.map_eq_some_iff.1 hread
          cases heq
          obtain ⟨js', rfl, hjs, hrest⟩ :=
            readElements_write k more rest fuel (depth - 1) [] _ _ helements
          exact ⟨.list (by simpa using hjs), hrest⟩
    | object fields =>
      rcases fields with _ | ⟨⟨name, k⟩, more⟩
      · intro j' rest' hread _ _
        change (if depth ≤ 1 then none else some (.object [], rest)) = some (j', rest') at hread
        split at hread <;> cases hread
        exact ⟨.object rfl .nil, rfl⟩
      · rw [readValue_object]
        intro j' rest' hread _ _
        split at hread
        · cases hread
        · obtain ⟨⟨fields', left⟩, hfields, heq⟩ := Option.map_eq_some_iff.1 hread
          cases heq
          obtain ⟨fields', rfl, hnames, hvalues, hrest⟩ :=
            readFields_write name k more rest fuel (depth - 1) [] _ _ hfields
          exact ⟨.object (by simpa using hnames) (by simpa using hvalues), hrest⟩
termination_by fuel

/-- The text of the elements from `j` on reads as as many elements like them. -/
theorem readElements_write (j : Json) (more : List Json) (rest : List Char) (fuel depth : Nat)
    (read js : List Json) (rest' : List Char)
    (hread : readElements fuel depth read (write j (writeElements false more rest)) =
      some (js, rest')) :
    ∃ js', js = read.reverse ++ js' ∧ List.Forall₂ Alike (j :: more) js' ∧ rest' = rest := by
  cases fuel with
  | zero => cases hread
  | succ fuel =>
    unfold readElements at hread
    split at hread
    · cases hread
    · next j' left hvalue =>
      have hwritten := readValue_write j (writeElements false more rest) fuel depth j' left hvalue
        (stops_writeElements more rest)
      split at hread
      · next left' hskip =>
        obtain ⟨halike, rfl⟩ := hwritten (stops_of_skipBlank_eq hskip (by decide))
        cases more with
        | nil => cases hskip
        | cons k more =>
          cases hskip
          obtain ⟨js', rfl, hjs, hrest⟩ :=
            readElements_write k more rest fuel depth _ js rest' hread
          exact ⟨j' :: js', by simp, .cons halike hjs, hrest⟩
      · next left' hskip =>
        obtain ⟨halike, rfl⟩ := hwritten (stops_of_skipBlank_eq hskip (by decide))
        cases more with
        | nil =>
          cases hskip
          cases hread
          exact ⟨[j'], by simp, .cons halike .nil, rfl⟩
        | cons k more => cases hskip
      · cases hread
termination_by fuel

/-- The text of the fields from one on reads as fields of the same names with values like theirs. -/
theorem readFields_write (name : String) (j : Json) (more : List (String × Json))
    (rest : List Char) (fuel depth : Nat) (read fields : List (String × Json)) (rest' : List Char)
    (hread : readFields fuel depth read
      (writeText name (':' :: write j (writeFields false more rest))) = some (fields, rest')) :
    ∃ fields', fields = read.reverse ++ fields' ∧
      ((name, j) :: more).map (·.1) = fields'.map (·.1) ∧
      List.Forall₂ Alike (((name, j) :: more).map (·.2)) (fields'.map (·.2)) ∧ rest' = rest := by
  cases fuel with
  | zero => cases hread
  | succ fuel =>
    rw [readFields_eq] at hread
    split at hread
    · cases hread
    · next j' left hvalue =>
      have hwritten := readValue_write j (writeFields false more rest) fuel depth j' left hvalue
        (stops_writeFields more rest)
      split at hread
      · next left' hskip =>
        obtain ⟨halike, rfl⟩ := hwritten (stops_of_skipBlank_eq hskip (by decide))
        rcases more with _ | ⟨⟨next, k⟩, more⟩
        · cases hskip
        · cases hskip
          obtain ⟨fields', rfl, hnames, hvalues, hrest⟩ :=
            readFields_write next k more rest fuel depth _ fields rest' hread
          exact ⟨(name, j') :: fields', by simp, by simpa using hnames,
            .cons halike (by simpa using hvalues), hrest⟩
      · next left' hskip =>
        obtain ⟨halike, rfl⟩ := hwritten (stops_of_skipBlank_eq hskip (by decide))
        rcases more with _ | ⟨⟨next, k⟩, more⟩
        · cases hskip
          cases hread
          exact ⟨[(name, j')], by simp, rfl, .cons halike .nil, rfl⟩
        · cases hskip
      · cases hread
termination_by fuel

end

/-- A value that is written and read again is like the one before. -/
theorem alike_of_read {j j' : Json} (hread : read j.toText = some j') : Alike j j' := by
  unfold read toText at hread
  rw [String.toList_ofList] at hread
  dsimp only at hread
  split at hread
  · next value rest hvalue =>
    split at hread
    · next hblank =>
      cases hread
      have hstops : Stops rest := by
        apply stops_of_skipBlank
        rw [List.isEmpty_iff.1 hblank]
        exact stops_nil
      exact (readValue_write j [] _ _ _ rest hvalue stops_nil hstops).1
    · cases hread
  · cases hread

end Jukebox.Json
