import Mathlib.Data.List.TakeWhile
import Mathlib.Tactic.IntervalCases
import Questionnaire.Json.Reader
import Questionnaire.Json.Writer
import Questionnaire.Proofs.Ordered

/-! Printed JSON is read back: the indented text of a value is read as that value, unless it nests
too deeply or holds a number that is no integer of 64 bits. -/
namespace Questionnaire.Json

/-! Texts -/

theorem readString_simpleEscape {c e : Char} (h : simpleEscape? e = some c)
    (read rest : List Char) :
    readString read ('\\' :: e :: rest) = readString (c :: read) rest := by
  have hunit : e ≠ 'u' := by
    rintro rfl
    cases h
  simp [readString, hunit, h]

theorem readString_unit {a b c d : Char} {unit : Nat} (h : unit? a b c d = some unit)
    (hunit : unit < 0x20) (read rest : List Char) :
    readString read ('\\' :: 'u' :: a :: b :: c :: d :: rest) =
      readString (Char.ofNat unit :: read) rest := by
  have hlow : ¬(0xdc00 ≤ unit ∧ unit ≤ 0xdfff) := by omega
  have halone : unit < 0xd800 ∨ 0xdbff < unit := by omega
  simp only [readString, h, if_neg hlow, if_pos halone]

theorem readString_plain {c : Char} (hquote : c ≠ '"') (hescape : c ≠ '\\')
    (hcontrol : ¬c.toNat < 0x20) (read rest : List Char) :
    readString read (c :: rest) = readString (c :: read) rest := by
  simp [readString, hescape, hcontrol]

/-- A character below the printable ones is escaped by a mark, or by its code. -/
theorem escapedChar_of_control {n : Nat} (h : n < 0x20) :
    (∃ e, (escapedChar (.ofNat n)).toList = ['\\', e] ∧ simpleEscape? e = some (.ofNat n)) ∨
    ∃ x y z w, (escapedChar (.ofNat n)).toList = ['\\', 'u', x, y, z, w] ∧
      unit? x y z w = some n := by
  interval_cases n <;>
    first
      | exact .inl ⟨_, rfl, rfl⟩
      | exact .inr ⟨_, _, _, _, rfl, rfl⟩

/-- A character stands for itself, or it is escaped by a mark or by its code. -/
theorem escapedChar_cases (c : Char) :
    ((escapedChar c).toList = [c] ∧ c ≠ '"' ∧ c ≠ '\\' ∧ ¬c.toNat < 0x20) ∨
    (∃ e, (escapedChar c).toList = ['\\', e] ∧ simpleEscape? e = some c) ∨
    ∃ x y z w, (escapedChar c).toList = ['\\', 'u', x, y, z, w] ∧
      unit? x y z w = some c.toNat ∧ c.toNat < 0x20 := by
  by_cases hcontrol : c.toNat < 0x20
  · have hescape := escapedChar_of_control hcontrol
    rw [Char.ofNat_toNat] at hescape
    obtain hmark | ⟨x, y, z, w, htext, hunit⟩ := hescape
    · exact .inr (.inl hmark)
    · exact .inr (.inr ⟨x, y, z, w, htext, hunit, hcontrol⟩)
  · by_cases hquote : c = '"'
    · subst hquote
      exact .inr (.inl ⟨'"', rfl, rfl⟩)
    · by_cases hescape : c = '\\'
      · subst hescape
        exact .inr (.inl ⟨'\\', rfl, rfl⟩)
      · refine .inl ⟨?_, hquote, hescape, hcontrol⟩
        unfold escapedChar
        split
        any_goals contradiction
        rw [if_neg hcontrol]
        exact String.toList_singleton _

theorem readString_escapedChar (c : Char) (read rest : List Char) :
    readString read ((escapedChar c).toList ++ rest) = readString (c :: read) rest := by
  obtain ⟨htext, hquote, hescape, hcontrol⟩ | hmark | hcode := escapedChar_cases c
  · rw [htext]
    exact readString_plain hquote hescape hcontrol read rest
  · obtain ⟨e, htext, he⟩ := hmark
    rw [htext]
    exact readString_simpleEscape he read rest
  · obtain ⟨x, y, z, w, htext, hunit, hlt⟩ := hcode
    rw [htext]
    exact (readString_unit hunit hlt read rest).trans (by rw [Char.ofNat_toNat])

/-- The characters of a text, escaped. -/
def escaped (s : List Char) : List Char := s.flatMap fun c => (escapedChar c).toList

theorem toList_stringText (s : String) :
    (stringText s).toList = '"' :: (escaped s.toList ++ ['"']) := by
  have hfold : ∀ (cs : List Char) (text : String),
      (cs.foldl (fun text c => text ++ escapedChar c) text).toList = text.toList ++ escaped cs := by
    intro cs
    induction cs with
    | nil => simp [escaped]
    | cons c cs ih => simp [ih, escaped]
  simp [stringText, hfold]

theorem readString_escaped (s read rest : List Char) :
    readString read (escaped s ++ '"' :: rest) = .ok (String.ofList (read.reverse ++ s), rest) := by
  induction s generalizing read with
  | nil => simp [escaped, readString]
  | cons c s ih =>
    have hcons : escaped (c :: s) = (escapedChar c).toList ++ escaped s := List.flatMap_cons
    rw [hcons, List.append_assoc, readString_escapedChar, ih]
    simp

/-! Numbers -/

/-- No number goes on with what a text begins with. -/
def EndsNumber (s : List Char) : Prop :=
  ∀ c rest, s = c :: rest → c.isDigit = false ∧ c ≠ '.' ∧ isExponentMark c = false

theorem endsNumber_cons {c : Char} (hdigit : c.isDigit = false) (hpoint : c ≠ '.')
    (hmark : isExponentMark c = false) (rest : List Char) : EndsNumber (c :: rest) := by
  rintro _ _ ⟨⟩
  exact ⟨hdigit, hpoint, hmark⟩

theorem EndsNumber.takeWhile {s : List Char} (h : EndsNumber s) :
    s.takeWhile Char.isDigit = [] := by
  cases s with
  | nil => rfl
  | cons c rest => simp [(h c rest rfl).1]

theorem EndsNumber.dropWhile {s : List Char} (h : EndsNumber s) :
    s.dropWhile Char.isDigit = s := by
  cases s with
  | nil => rfl
  | cons c rest => simp [(h c rest rfl).1]

theorem digitsValue_toDigits (n : Nat) : digitsValue (Nat.toDigits 10 n) = n :=
  Nat.ofDigitChars_toDigits (by decide) (by decide)

theorem exists_cons_toDigits (n : Nat) :
    ∃ c s, Nat.toDigits 10 n = c :: s ∧ c.isDigit = true := by
  obtain ⟨c, s, hcons⟩ := List.exists_cons_of_ne_nil (Nat.toDigits_ne_nil (n := n) (b := 10))
  have hmem : c ∈ Nat.toDigits 10 n := hcons ▸ List.mem_cons_self
  exact ⟨c, s, hcons, Nat.isDigit_of_mem_toDigits (by decide) (by decide) hmem⟩

/-- Digits do not begin with a zero, unless they are nothing else. -/
theorem toDigits_append_ne_zero {n : Nat} (h : n ≠ 0) (s rest : List Char) :
    Nat.toDigits 10 n ++ s ≠ '0' :: rest := by
  induction n using Nat.strong_induction_on generalizing s with
  | _ n ih =>
    rcases Nat.lt_or_ge n 10 with hlt | hge
    · rw [Nat.toDigits_of_lt_base hlt]
      have hdigit : n.digitChar ≠ '0' := by interval_cases n <;> trivial
      simp [hdigit]
    · rw [Nat.toDigits_of_base_le (by decide) hge, List.append_assoc]
      exact ih (n / 10) (by omega) (by omega) _

/-- Whole digits are an integer if they fit. -/
theorem readNumberEnd_integer {negative : Bool} {whole rest : List Char} {i : Int}
    (hrest : EndsNumber rest) (hinteger : integer? negative whole = some i) :
    readNumberEnd negative whole rest = .ok (.int i, rest) := by
  cases rest with
  | nil => simp [readNumberEnd, readNumberEnd.integer, hinteger]
  | cons c more =>
    obtain ⟨-, hpoint, hmark⟩ := hrest c more rfl
    simp [readNumberEnd, readNumberEnd.integer, hinteger, hmark]

theorem readNumber_toDigits {negative : Bool} {n : Nat} {rest : List Char} {i : Int}
    (hrest : EndsNumber rest) (hinteger : integer? negative (Nat.toDigits 10 n) = some i) :
    readNumber negative (Nat.toDigits 10 n ++ rest) = .ok (.int i, rest) := by
  rcases Nat.eq_zero_or_pos n with rfl | hpos
  · cases rest with
    | nil => exact readNumberEnd_integer hrest hinteger
    | cons c more =>
      have hnext := (hrest c more rfl).1
      simpa [readNumber, hnext] using readNumberEnd_integer hrest hinteger
  · have hdigits : ∀ c ∈ Nat.toDigits 10 n, c.isDigit = true := fun c hc =>
      Nat.isDigit_of_mem_toDigits (by decide) (by decide) hc
    have htake : (Nat.toDigits 10 n ++ rest).takeWhile Char.isDigit = Nat.toDigits 10 n := by
      rw [List.takeWhile_append_of_pos hdigits, hrest.takeWhile, List.append_nil]
    have hdrop : (Nat.toDigits 10 n ++ rest).dropWhile Char.isDigit = rest := by
      rw [List.dropWhile_append_of_pos hdigits, hrest.dropWhile]
    unfold readNumber
    split
    · next hnil => exact absurd (List.append_eq_nil_iff.mp hnil).1 Nat.toDigits_ne_nil
    · next hzero => exact absurd hzero (toDigits_append_ne_zero (Nat.ne_of_gt hpos) _ _)
    · rw [htake, hdrop]
      split
      · next hnil => exact absurd hnil Nat.toDigits_ne_nil
      · exact readNumberEnd_integer hrest hinteger

/-- An integer that fits in 64 bits, with or without a sign. -/
def Fits (i : Int) : Prop := -0x8000000000000000 ≤ i ∧ i < 0x10000000000000000

theorem integer?_of_nonneg {n : Nat} (h : Fits n) :
    integer? false (Nat.toDigits 10 n) = some (n : Int) := by
  have hlt : n < UInt64.size := by exact_mod_cast h.2
  simp [integer?, digitsValue_toDigits, hlt]

theorem integer?_of_neg {n : Nat} (h : Fits (.negSucc n)) :
    integer? true (Nat.toDigits 10 (n + 1)) = some (.negSucc n) := by
  have hmin : Int64.minValue.toInt ≤ -((n + 1 : Nat) : Int) := h.1
  unfold integer?
  rw [digitsValue_toDigits, if_pos rfl, if_pos ⟨Nat.succ_pos n, hmin⟩]
  rfl

theorem readScalar_of_isDigit {c : Char} (h : c.isDigit = true) {s rest : List Char} {n : Number}
    (hread : readNumber false (c :: s) = .ok (n, rest)) :
    readScalar (c :: s) = .ok (.number n, rest) := by
  unfold readScalar
  split
  any_goals contradiction
  all_goals simp_all

theorem readScalar_int {i : Int} (h : Fits i) {rest : List Char} (hrest : EndsNumber rest) :
    readScalar ((toString i).toList ++ rest) = .ok (.number (.int i), rest) := by
  cases i with
  | ofNat n =>
    obtain ⟨c, more, hcons, hdigit⟩ := exists_cons_toDigits n
    have hread := readNumber_toDigits hrest (integer?_of_nonneg h)
    have htext : (toString (Int.ofNat n)).toList = Nat.toDigits 10 n := String.toList_ofList
    rw [htext, hcons, List.cons_append]
    rw [hcons] at hread
    exact readScalar_of_isDigit hdigit hread
  | negSucc n =>
    have hread := readNumber_toDigits hrest (integer?_of_neg h)
    have htext : (toString (Int.negSucc n)).toList = '-' :: Nat.toDigits 10 (n + 1) := by
      have hrepr : toString (Int.negSucc n) = "-" ++ (n + 1).repr := rfl
      rw [hrepr, Nat.repr_eq_ofList_toDigits]
      simp
    rw [htext, List.cons_append, readScalar, hread]
    rfl

/-! Lines -/

/-- The end of a line and the indentation of the next one. -/
def newLine (depth : Nat) : List Char := '\n' :: List.replicate (2 * depth) ' '

theorem skipSpace_newLine (depth : Nat) (s : List Char) :
    skipSpace (newLine depth ++ s) = skipSpace s := by
  refine List.dropWhile_append_of_pos fun c hc => ?_
  rcases List.mem_cons.mp hc with rfl | hc
  · rfl
  · rw [(List.mem_replicate.mp hc).2]
    rfl

/-- A text that begins neither with white space nor with the end of a list. -/
def Begins (s : List Char) : Prop := ∃ c rest, s = c :: rest ∧ isSpace c = false ∧ c ≠ ']'

theorem Begins.append {s : List Char} (h : Begins s) (rest : List Char) : Begins (s ++ rest) := by
  obtain ⟨c, more, rfl, hc⟩ := h
  exact ⟨c, more ++ rest, rfl, hc⟩

theorem Begins.skipSpace_eq {s : List Char} (h : Begins s) : skipSpace s = s := by
  obtain ⟨c, rest, rfl, hspace, -⟩ := h
  simp [skipSpace, hspace]

theorem Begins.skipSpace_newLine {s : List Char} (h : Begins s) (depth : Nat) :
    skipSpace (newLine depth ++ s) = s :=
  (Json.skipSpace_newLine depth s).trans h.skipSpace_eq

theorem endsNumber_newLine (depth : Nat) (s : List Char) : EndsNumber (newLine depth ++ s) :=
  endsNumber_cons rfl (by decide) rfl _

/-- The lines of further entries, and `closing` on a line of its own. -/
def furtherEntries (depth : Nat) (closing : List Char) : List String → List Char
  | [] => newLine depth ++ closing
  | entry :: more =>
    ',' :: (newLine (depth + 1) ++ (entry.toList ++ furtherEntries depth closing more))

theorem endsNumber_furtherEntries (depth : Nat) (closing : List Char) (entries : List String) :
    EndsNumber (furtherEntries depth closing entries) := by
  cases entries with
  | nil => exact endsNumber_newLine depth _
  | cons entry more => exact endsNumber_cons rfl (by decide) rfl _

theorem newLine_eq (depth : Nat) : newLine depth = "\n".toList ++ (indent depth).toList := by
  simp [newLine, indent]

theorem intercalate_append (depth : Nat) (closing : List Char) (entry : String)
    (more : List String) :
    (String.intercalate ",\n" ((entry :: more).map (indent (depth + 1) ++ ·))).toList ++
        (newLine depth ++ closing) =
      (indent (depth + 1)).toList ++ (entry.toList ++ furtherEntries depth closing more) := by
  induction more generalizing entry with
  | nil => simp [furtherEntries]
  | cons next more ih =>
    have hnext := ih next
    rw [List.map_cons] at hnext
    rw [List.map_cons, List.map_cons, String.intercalate_cons_cons, furtherEntries,
      newLine_eq (depth + 1)]
    simp only [String.toList_append, List.append_assoc, hnext]
    rfl

theorem block_append (depth : Nat) (left right entry : String) (more : List String)
    (rest : List Char) :
    (block depth left (entry :: more) right).toList ++ rest = left.toList ++ (newLine (depth + 1) ++
      (entry.toList ++ furtherEntries depth (right.toList ++ rest) more)) := by
  have hentries := intercalate_append depth (right.toList ++ rest) entry more
  have hblock : block depth left (entry :: more) right = left ++ "\n" ++
      String.intercalate ",\n" ((entry :: more).map (indent (depth + 1) ++ ·)) ++ "\n" ++
        indent depth ++ right := rfl
  rw [newLine_eq, List.append_assoc] at hentries
  rw [hblock, newLine_eq, List.append_assoc, ← hentries]
  simp only [String.toList_append, List.append_assoc]

/-- A reader of values reads a text as a value, whatever comes after it. -/
structure Reads (value : ValueReader) (text : String) (j : Json) : Prop where
  begins : Begins text.toList
  reads : ∀ rest, EndsNumber rest → value (text.toList ++ rest) = .ok (j, rest)

/-! Arrays -/

section
variable {value : ValueReader}

theorem readItems_comma {s t : List Char} (hskip : skipSpace s = t) (ht : Begins t)
    (read : List Json) (limit : Nat) :
    readItems value read (limit + 1) (',' :: s) =
      (value t).bind fun (item, rest) => readItems value (item :: read) limit rest := by
  obtain ⟨c, more, rfl, -, hclose⟩ := ht
  have hcomma : skipSpace (',' :: s) = ',' :: s := rfl
  simp only [readItems, hcomma, hskip]
  split
  · contradiction
  · next heq => exact absurd (List.cons.inj heq).1 hclose
  · rfl

theorem readItems_furtherEntries {texts : List String} {items : List Json}
    (h : List.Forall₂ (Reads value) texts items) (depth : Nat) (rest : List Char)
    (read : List Json) {limit : Nat} (hlimit : texts.length < limit) :
    readItems value read limit (furtherEntries depth (']' :: rest) texts) =
      .ok (read.reverse ++ items, rest) := by
  induction h generalizing read limit with
  | nil =>
    obtain ⟨limit, rfl⟩ := Nat.exists_eq_add_one_of_ne_zero (Nat.ne_zero_of_lt hlimit)
    have hskip : skipSpace (newLine depth ++ ']' :: rest) = ']' :: rest :=
      skipSpace_newLine depth _
    simp [readItems, furtherEntries, hskip]
  | @cons text item texts items hentry hmore ih =>
    obtain ⟨limit, rfl⟩ := Nat.exists_eq_add_one_of_ne_zero (Nat.ne_zero_of_lt hlimit)
    have hbegins := hentry.begins.append (furtherEntries depth (']' :: rest) texts)
    have hread := ih (item :: read) (Nat.lt_of_succ_lt_succ hlimit)
    rw [furtherEntries, readItems_comma (hbegins.skipSpace_newLine _) hbegins,
      hentry.reads _ (endsNumber_furtherEntries _ _ _)]
    exact hread.trans (by simp)

theorem length_lt_furtherEntries (depth : Nat) (closing : List Char) (texts : List String) :
    texts.length < (furtherEntries depth closing texts).length := by
  induction texts with
  | nil => simp [furtherEntries, newLine]
  | cons text texts ih =>
    simp only [furtherEntries, List.length_cons, List.length_append]
    omega

theorem readArray_block {text : String} {item : Json} {texts : List String} {items : List Json}
    (hfirst : Reads value text item) (hmore : List.Forall₂ (Reads value) texts items)
    (depth : Nat) (rest : List Char) :
    readArray value (newLine (depth + 1) ++
        (text.toList ++ furtherEntries depth (']' :: rest) texts)) =
      .ok (.array (item :: items), rest) := by
  have hbegins := hfirst.begins.append (furtherEntries depth (']' :: rest) texts)
  have hread := hfirst.reads _ (endsNumber_furtherEntries depth (']' :: rest) texts)
  have hitems := readItems_furtherEntries hmore depth rest [item]
    (Nat.lt_succ_of_lt (length_lt_furtherEntries depth (']' :: rest) texts))
  unfold readArray
  rw [hbegins.skipSpace_newLine]
  obtain ⟨c, more, hcons, -, hclose⟩ := hbegins
  rw [hcons] at hread ⊢
  split
  · contradiction
  · next heq => exact absurd (List.cons.inj heq).1 hclose
  · rw [hread]
    simp only [bind, Except.bind, hitems]
    rfl

end

/-! Objects -/

section
variable {value : ValueReader}

/-- A reader of values reads a text as a member, whatever comes after it. -/
def ReadsMember (value : ValueReader) (text : String) (member : String × Json) : Prop :=
  ∃ s, text.toList = '"' :: s ∧
    ∀ rest, EndsNumber rest → readMember value (s ++ rest) = .ok (member, rest)

theorem readsMember (name : String) {text : String} {j : Json} (h : Reads value text j) :
    ReadsMember value (stringText name ++ ": " ++ text) (name, j) := by
  refine ⟨escaped name.toList ++ '"' :: ':' :: ' ' :: text.toList, ?_, fun rest hrest => ?_⟩
  · simp [toList_stringText]
  · have hname := readString_escaped name.toList [] (':' :: ' ' :: (text.toList ++ rest))
    rw [List.reverse_nil, List.nil_append, String.ofList_toList] at hname
    have hcolon : skipSpace (':' :: ' ' :: (text.toList ++ rest)) =
        ':' :: ' ' :: (text.toList ++ rest) := rfl
    have hblank : skipSpace (' ' :: (text.toList ++ rest)) = text.toList ++ rest :=
      (h.begins.append rest).skipSpace_eq
    have hvalue := h.reads rest hrest
    rw [List.append_assoc, List.cons_append, List.cons_append, List.cons_append]
    simp only [readMember, hname, bind, Except.bind, hcolon, hblank, hvalue]
    rfl

/-- A member behind all others is put at the end. -/
theorem insert_of_ascending {read : Fields Json} {name : String} {j : Json}
    {more : List (String × Json)} (h : Fields.Ascending (read ++ (name, j) :: more)) :
    Fields.insert name j read = read ++ [(name, j)] := by
  induction read with
  | nil => rfl
  | cons first read ih =>
    obtain ⟨hfirst, hrest⟩ := List.pairwise_cons.mp h
    have hlt : first.1 < name := hfirst (name, j) (by simp)
    rw [Fields.insert, if_neg (String.ne_of_lt hlt), if_neg (String.lt_asymm hlt), ih hrest]
    rfl

theorem readMembers_furtherEntries {texts : List String} {members : List (String × Json)}
    (h : List.Forall₂ (ReadsMember value) texts members) (depth : Nat) (rest : List Char)
    (read : List (String × Json)) (hascending : Fields.Ascending (read ++ members))
    {limit : Nat} (hlimit : texts.length < limit) :
    readMembers value read limit (furtherEntries depth ('\x7d' :: rest) texts) =
      .ok (read ++ members, rest) := by
  induction h generalizing read limit with
  | nil =>
    obtain ⟨limit, rfl⟩ := Nat.exists_eq_add_one_of_ne_zero (Nat.ne_zero_of_lt hlimit)
    have hskip : skipSpace (newLine depth ++ '\x7d' :: rest) = '\x7d' :: rest :=
      skipSpace_newLine depth _
    simp [readMembers, furtherEntries, hskip]
  | @cons text member texts members hentry hmore ih =>
    obtain ⟨limit, rfl⟩ := Nat.exists_eq_add_one_of_ne_zero (Nat.ne_zero_of_lt hlimit)
    obtain ⟨s, htext, hread⟩ := hentry
    have hskip : skipSpace (newLine (depth + 1) ++
        ('"' :: (s ++ furtherEntries depth ('\x7d' :: rest) texts))) =
          '"' :: (s ++ furtherEntries depth ('\x7d' :: rest) texts) :=
      skipSpace_newLine _ _
    have hinsert := insert_of_ascending hascending
    rw [List.append_cons] at hascending
    have hmembers := ih _ hascending (Nat.lt_of_succ_lt_succ hlimit)
    have hcomma : skipSpace (',' :: (newLine (depth + 1) ++
        ('"' :: (s ++ furtherEntries depth ('\x7d' :: rest) texts)))) =
          ',' :: (newLine (depth + 1) ++
            ('"' :: (s ++ furtherEntries depth ('\x7d' :: rest) texts))) := rfl
    simp only [readMembers, furtherEntries, htext, List.cons_append, hcomma, hskip, bind,
      Except.bind, hread _ (endsNumber_furtherEntries _ _ _), hinsert, hmembers]
    simp

theorem readObject_block {text : String} {member : String × Json} {texts : List String}
    {members : List (String × Json)} (hfirst : ReadsMember value text member)
    (hmore : List.Forall₂ (ReadsMember value) texts members)
    (hascending : Fields.Ascending (member :: members)) (depth : Nat) (rest : List Char) :
    readObject value (newLine (depth + 1) ++
        (text.toList ++ furtherEntries depth ('\x7d' :: rest) texts)) =
      .ok (.object (member :: members), rest) := by
  obtain ⟨s, htext, hread⟩ := hfirst
  have hskip : skipSpace (newLine (depth + 1) ++
      ('"' :: (s ++ furtherEntries depth ('\x7d' :: rest) texts))) =
        '"' :: (s ++ furtherEntries depth ('\x7d' :: rest) texts) :=
    skipSpace_newLine _ _
  have hmembers := readMembers_furtherEntries hmore depth rest [member] hascending
    (Nat.lt_succ_of_lt (length_lt_furtherEntries depth ('\x7d' :: rest) texts))
  simp only [readObject, htext, List.cons_append, hskip, bind, Except.bind,
    hread _ (endsNumber_furtherEntries _ _ _), hmembers]
  rfl

end

/-! Values -/

/-- Values that a text holds as they are: there are at most `depth` arrays and objects around each
other, members are ascending, and all numbers are integers of 64 bits. -/
def Printable : Nat → Json → Prop
  | _, .null | _, .bool _ | _, .string _ => True
  | _, .number (.int i) => Fits i
  | _, .number (.float _) => False
  | 0, .array _ | 0, .object _ => False
  | depth + 1, .array items => ∀ item ∈ items, Printable depth item
  | depth + 1, .object members =>
    Fields.Ascending members ∧ ∀ member ∈ members, Printable depth member.2

theorem printable_string (depth : Nat) (s : String) : Printable depth (.string s) := by
  cases depth <;> trivial

theorem printable_bool (depth : Nat) (b : Bool) : Printable depth (.bool b) := by
  cases depth <;> trivial

theorem printable_texts (depth : Nat) (texts : List String) :
    Printable (depth + 1) (.ofTexts texts) := by
  intro item hitem
  obtain ⟨text, -, rfl⟩ := List.mem_map.mp hitem
  exact printable_string depth text

theorem printable_array {depth : Nat} {items : List Json}
    (h : ∀ item ∈ items, Printable depth item) : Printable (depth + 1) (.array items) :=
  h

theorem printable_pair {depth : Nat} {first second : String} {j k : Json} (h : first < second)
    (hj : Printable depth j) (hk : Printable depth k) :
    Printable (depth + 1) (.object [(first, j), (second, k)]) :=
  ⟨List.pairwise_pair.mpr h, List.forall_mem_cons.mpr ⟨hj, List.forall_mem_singleton.mpr hk⟩⟩

theorem printable_triple {depth : Nat} {first second third : String} {j k l : Json}
    (h : [first, second, third].Pairwise (· < ·)) (hj : Printable depth j)
    (hk : Printable depth k) (hl : Printable depth l) :
    Printable (depth + 1) (.object [(first, j), (second, k), (third, l)]) :=
  ⟨List.pairwise_map.mp h, List.forall_mem_cons.mpr
    ⟨hj, List.forall_mem_cons.mpr ⟨hk, List.forall_mem_singleton.mpr hl⟩⟩⟩

/-- Named texts. -/
theorem printable_named (members : List (String × String))
    (h : (members.map Prod.fst).Pairwise (· < ·)) (depth : Nat) :
    Printable (depth + 1) (.object (members.map fun (name, text) => (name, .string text))) := by
  refine ⟨List.pairwise_map.mpr (List.pairwise_map.mp h), fun member hmember => ?_⟩
  obtain ⟨⟨name, text⟩, -, rfl⟩ := List.mem_map.mp hmember
  exact printable_string depth text

theorem prettyItems_eq (depth : Nat) (items : List Json) :
    prettyItems depth items = items.map (prettyAt depth) :=
  eq_map_of_recursion rfl (fun _ _ => rfl) items

theorem prettyMembers_eq (depth : Nat) (members : List (String × Json)) :
    prettyMembers depth members =
      members.map fun (name, value) => stringText name ++ ": " ++ value.prettyAt depth :=
  eq_map_of_recursion rfl (fun _ _ => rfl) members

/-- What a value begins with that is neither an array nor an object. -/
def BeginsScalar (c : Char) : Prop := isSpace c = false ∧ c ≠ '[' ∧ c ≠ ']' ∧ c ≠ '\x7b'

instance (c : Char) : Decidable (BeginsScalar c) :=
  inferInstanceAs (Decidable (isSpace c = false ∧ c ≠ '[' ∧ c ≠ ']' ∧ c ≠ '\x7b'))

theorem beginsScalar_of_isDigit {c : Char} (h : c.isDigit = true) : BeginsScalar c := by
  have hne : ∀ other : Char, other.isDigit = false → c ≠ other := by
    rintro other hother rfl
    exact absurd h (by simp [hother])
  have hspace : isSpace c = false := by
    simp [isSpace, hne ' ' rfl, hne '\n' rfl, hne '\t' rfl, hne '\r' rfl]
  exact ⟨hspace, hne '[' rfl, hne ']' rfl, hne '\x7b' rfl⟩

theorem exists_cons_toString (i : Int) :
    ∃ c s, (toString i).toList = c :: s ∧ BeginsScalar c := by
  cases i with
  | ofNat n =>
    obtain ⟨c, s, hcons, hdigit⟩ := exists_cons_toDigits n
    exact ⟨c, s, String.toList_ofList.trans hcons, beginsScalar_of_isDigit hdigit⟩
  | negSucc n => exact ⟨'-', (n + 1).repr.toList, String.toList_append, by decide⟩

theorem readValue_of_beginsScalar {c : Char} (h : BeginsScalar c) (depth : Nat) (s : List Char) :
    readValue depth (c :: s) = readScalar (c :: s) := by
  obtain ⟨hspace, harray, -, hobject⟩ := h
  have hskip : skipSpace (c :: s) = c :: s := by simp [skipSpace, hspace]
  unfold readValue
  rw [hskip]
  split
  all_goals simp_all

theorem reads_of_readScalar {text : String} {c : Char} {s : List Char} {j : Json}
    (htext : text.toList = c :: s) (hc : BeginsScalar c)
    (hread : ∀ rest, EndsNumber rest → readScalar (text.toList ++ rest) = .ok (j, rest))
    (depth : Nat) : Reads (readValue depth) text j := by
  refine ⟨⟨c, s, htext, hc.1, hc.2.2.1⟩, fun rest hrest => ?_⟩
  have hscalar := hread rest hrest
  rw [htext, List.cons_append] at hscalar ⊢
  rw [readValue_of_beginsScalar hc, hscalar]

theorem reads_null (depth : Nat) : Reads (readValue depth) "null" .null :=
  reads_of_readScalar (c := 'n') (s := ['u', 'l', 'l']) rfl (by decide) (fun _ _ => rfl) depth

theorem reads_bool (b : Bool) (depth : Nat) :
    Reads (readValue depth) (if b then "true" else "false") (.bool b) := by
  cases b with
  | true =>
    exact reads_of_readScalar (c := 't') (s := ['r', 'u', 'e']) rfl (by decide) (fun _ _ => rfl)
      depth
  | false =>
    exact reads_of_readScalar (c := 'f') (s := ['a', 'l', 's', 'e']) rfl (by decide)
      (fun _ _ => rfl) depth

theorem reads_string (s : String) (depth : Nat) :
    Reads (readValue depth) (stringText s) (.string s) := by
  have htext := toList_stringText s
  refine reads_of_readScalar htext (by decide) (fun rest _ => ?_) depth
  have hread := readString_escaped s.toList [] rest
  rw [List.reverse_nil, List.nil_append, String.ofList_toList] at hread
  simp [htext, readScalar, hread]

theorem reads_int {i : Int} (h : Fits i) (depth : Nat) :
    Reads (readValue depth) (toString i) (.number (.int i)) := by
  obtain ⟨c, s, htext, hc⟩ := exists_cons_toString i
  exact reads_of_readScalar htext hc (fun rest hrest => readScalar_int h hrest) depth

/-- The entries of a block are read where the text of the block is. -/
theorem reads_block {value : ValueReader} (left right : Char) {entry : String}
    {more : List String} {j : Json} {indentation : Nat} (hspace : isSpace left = false)
    (hclose : left ≠ ']')
    (hread : ∀ rest, value (left :: (newLine (indentation + 1) ++
      (entry.toList ++ furtherEntries indentation (right :: rest) more))) = .ok (j, rest)) :
    Reads value (block indentation (.singleton left) (entry :: more) (.singleton right)) j := by
  have htext := block_append indentation (.singleton left) (.singleton right) entry more
  simp only [String.toList_singleton, List.singleton_append] at htext
  have hbegins : Begins
      (block indentation (.singleton left) (entry :: more) (.singleton right)).toList := by
    have hwhole := htext []
    rw [List.append_nil] at hwhole
    exact ⟨left, _, hwhole, hspace, hclose⟩
  exact ⟨hbegins, fun rest _ => (congrArg value (htext rest)).trans (hread rest)⟩

theorem reads_array {depth : Nat} {items : List Json} {indentation : Nat}
    (h : ∀ item ∈ items, Reads (readValue depth) (item.prettyAt (indentation + 1)) item) :
    Reads (readValue (depth + 1)) ((Json.array items).prettyAt indentation) (.array items) := by
  rw [prettyAt, prettyItems_eq]
  cases items with
  | nil =>
    have htext : (block indentation "[" [] "]").toList = ['[', ']'] := by simp [block]
    refine ⟨⟨'[', [']'], htext, rfl, by decide⟩, fun rest _ => ?_⟩
    rw [List.map_nil, htext]
    rfl
  | cons item items =>
    obtain ⟨hitem, hitems⟩ := List.forall_mem_cons.mp h
    have hall : List.Forall₂ (Reads (readValue depth))
        (items.map (prettyAt (indentation + 1))) items :=
      List.forall₂_map_left_iff.mpr (List.forall₂_same.mpr hitems)
    refine reads_block '[' ']' rfl (by decide) fun rest => ?_
    exact readArray_block hitem hall indentation rest

theorem reads_object {depth : Nat} {members : List (String × Json)} {indentation : Nat}
    (hascending : Fields.Ascending members)
    (h : ∀ member ∈ members,
      Reads (readValue depth) (member.2.prettyAt (indentation + 1)) member.2) :
    Reads (readValue (depth + 1)) ((Json.object members).prettyAt indentation)
      (.object members) := by
  rw [prettyAt, prettyMembers_eq]
  cases members with
  | nil =>
    have htext : (block indentation "\x7b" [] "\x7d").toList = ['\x7b', '\x7d'] := by simp [block]
    refine ⟨⟨'\x7b', ['\x7d'], htext, rfl, by decide⟩, fun rest _ => ?_⟩
    rw [List.map_nil, htext]
    rfl
  | cons member members =>
    obtain ⟨hmember, hmembers⟩ := List.forall_mem_cons.mp h
    have hall : List.Forall₂ (ReadsMember (readValue depth))
        (members.map fun (name, value) =>
          stringText name ++ ": " ++ value.prettyAt (indentation + 1)) members :=
      List.forall₂_map_left_iff.mpr (List.forall₂_same.mpr fun member hmember =>
        readsMember member.1 (hmembers member hmember))
    refine reads_block '\x7b' '\x7d' rfl (by decide) fun rest => ?_
    exact readObject_block (readsMember member.1 hmember) hall hascending indentation rest

/-- The indented text of a value is read as the value. -/
theorem reads_prettyAt {depth : Nat} {j : Json} (h : Printable depth j) (indentation : Nat) :
    Reads (readValue depth) (j.prettyAt indentation) j := by
  induction depth generalizing j indentation with
  | zero =>
    match j with
    | .null => exact reads_null 0
    | .bool true => exact reads_bool true 0
    | .bool false => exact reads_bool false 0
    | .string s => exact reads_string s 0
    | .number (.int i) => exact reads_int h 0
  | succ depth ih =>
    match j with
    | .null => exact reads_null (depth + 1)
    | .bool true => exact reads_bool true (depth + 1)
    | .bool false => exact reads_bool false (depth + 1)
    | .string s => exact reads_string s (depth + 1)
    | .number (.int i) => exact reads_int h (depth + 1)
    | .array items => exact reads_array fun item hitem => ih (h item hitem) _
    | .object members => exact reads_object h.1 fun member hmember => ih (h.2 member hmember) _

/-- The indented text of a value, with the end of its last line, is a text of this value. -/
theorem ofText_pretty {j : Json} (h : Printable nestingLimit j) :
    ofText (j.pretty ++ "\n") = .ok j := by
  have hread := (reads_prettyAt h 0).reads ['\n'] (endsNumber_cons rfl (by decide) rfl [])
  have htext : (j.pretty ++ "\n").toList = (j.prettyAt 0).toList ++ ['\n'] := String.toList_append
  have hrest : skipSpace ['\n'] = [] := rfl
  simp only [ofText, readText, htext, hread, bind, Except.bind, hrest]
  rfl

end Questionnaire.Json
