import Mathlib.Data.List.TakeWhile
import Questionnaire.Calendar.Rfc3339
import Questionnaire.Proofs.Records

/-! Timestamps: a moment is read from a text just if that text is what a valid timestamp is written
as. -/
namespace Questionnaire

/-- A check that passes leaves what comes after it. -/
theorem of_guard_eq_ok {ε α β : Type} {c : Prop} [Decidable c] {err : ε} {f : α → Except ε β}
    {x : Except ε β} {b : β} (h : (if c then Except.error err >>= f else x) = .ok b) :
    ¬ c ∧ x = .ok b := by
  split at h
  · cases h
  · next hc => exact ⟨hc, h⟩

namespace Rfc3339

/-- A number below 100 in two digits. -/
def pair (n : Nat) : List Char := [Nat.digitChar (n / 10), Nat.digitChar (n % 10)]

/-- The distance from universal time: none, as a letter, or hours and minutes ahead or behind. -/
inductive Zone where
  | universal (capital : Bool)
  | shifted (behind : Bool) (hours minutes : Nat)

namespace Zone

def write : Zone → List Char
  | universal capital => [if capital then 'Z' else 'z']
  | shifted behind hours minutes =>
    (if behind then '-' else '+') :: (pair hours ++ ':' :: pair minutes)

/-- The seconds by which local time is ahead. -/
def offset : Zone → Int
  | universal _ => 0
  | shifted behind hours minutes =>
    let seconds : Int := 3600 * hours + 60 * minutes
    if behind then -seconds else seconds

def IsValid : Zone → Prop
  | universal _ => True
  | shifted _ hours minutes => hours ≤ 23 ∧ minutes ≤ 59

instance : (zone : Zone) → Decidable zone.IsValid
  | universal _ => inferInstanceAs (Decidable True)
  | shifted _ hours minutes => inferInstanceAs (Decidable (hours ≤ 23 ∧ minutes ≤ 59))

end Zone

/-- A date, a time of day and a zone. A character stands between date and time, and digits of a
fraction may follow the second. -/
structure Timestamp where
  year : Nat
  month : Nat
  day : Nat
  separator : Char
  hour : Nat
  minute : Nat
  second : Nat
  fraction : List Char
  zone : Zone

namespace Timestamp

/-- Without digits there is no point. -/
def point (digits : List Char) : List Char := if digits = [] then [] else '.' :: digits

def write (t : Timestamp) : List Char :=
  pair (t.year / 100) ++ (pair (t.year % 100) ++ '-' :: (pair t.month ++ '-' :: (pair t.day ++
    t.separator :: (pair t.hour ++ ':' :: (pair t.minute ++ ':' :: (pair t.second ++
      (point t.fraction ++ t.zone.write)))))))

/-- The second since the beginning of 1970, without the fraction; a leap second counts as the one
before it. -/
def seconds (t : Timestamp) : Int :=
  Moment.toSeconds ⟨⟨t.year, t.month, t.day⟩,
    3600 * t.hour + 60 * t.minute + if (t.second : Int) = 60 then 59 else (t.second : Int)⟩ -
      t.zone.offset

/-- What the reader accepts. It is laxer than RFC 3339, which has a `T` between date and time: any
one byte may stand there. All parts are in range, and a leap second ends a month of universal
time. -/
structure IsReadable (t : Timestamp) : Prop where
  year_lt : t.year < 10000
  month_pos : 1 ≤ t.month
  month_le : t.month ≤ 12
  day_pos : 1 ≤ t.day
  day_le : (t.day : Int) ≤ Date.daysInMonth t.year t.month
  separator_size : t.separator.utf8Size = 1
  hour_le : t.hour ≤ 23
  minute_le : t.minute ≤ 59
  second_le : t.second ≤ 60
  ends_month : t.second = 60 → endsMonth t.seconds = true
  fraction_digits : ∀ c ∈ t.fraction, c.isDigit = true
  zone_valid : t.zone.IsValid

end Timestamp

theorem digit?_digitChar {n : Nat} (h : n < 10) : digit? (Nat.digitChar n) = some (n : Int) := by
  revert n
  decide

theorem exists_of_digit? {c : Char} {x : Int} (h : digit? c = some x) :
    ∃ n < 10, c = Nat.digitChar n ∧ x = n := by
  unfold digit? at h
  split at h
  · next hdigit =>
    have hlo : 48 ≤ c.toNat ∧ c.toNat ≤ 57 := Char.isDigit_iff_toNat.mp hdigit
    have hbelow : c.toNat - '0'.toNat < 10 := by
      change c.toNat - 48 < 10
      omega
    refine ⟨c.toNat - '0'.toNat, hbelow, Char.toNat_inj.mp ?_, (Option.some.inj h).symm⟩
    rw [Nat.toNat_digitChar_of_lt_ten hbelow]
    change c.toNat = 48 + (c.toNat - 48)
    omega
  · cases h

theorem two_pair (part : Part) {n : Nat} (h : n < 100) (rest : List Char) :
    two part (pair n ++ rest) = .ok (n, rest) := by
  have hhigh := digit?_digitChar (show n / 10 < 10 by omega)
  have hlow := digit?_digitChar (show n % 10 < 10 by omega)
  simp only [pair, List.cons_append, List.nil_append, two, hhigh, hlow]
  congr 2
  omega

theorem exists_of_two {part : Part} {s rest : List Char} {x : Int}
    (h : two part s = .ok (x, rest)) :
    ∃ n < 100, x = (n : Nat) ∧ s = pair n ++ rest := by
  unfold two at h
  split at h
  · next a b tail =>
    split at h
    · next p q hp hq =>
      obtain ⟨m, hm, rfl, rfl⟩ := exists_of_digit? hp
      obtain ⟨n, hn, rfl, rfl⟩ := exists_of_digit? hq
      obtain ⟨rfl, rfl⟩ := Prod.mk.inj (Except.ok.inj h)
      have hhigh : (10 * m + n) / 10 = m := by omega
      have hlow : (10 * m + n) % 10 = n := by omega
      refine ⟨10 * m + n, by omega, by push_cast; rfl, ?_⟩
      rw [pair, hhigh, hlow]
      rfl
    · cases h
  · cases h

theorem four_pair (part : Part) {n : Nat} (h : n < 10000) (rest : List Char) :
    four part (pair (n / 100) ++ (pair (n % 100) ++ rest)) = .ok (n, rest) := by
  have hhigh := two_pair part (show n / 100 < 100 by omega) (pair (n % 100) ++ rest)
  have hlow := two_pair part (show n % 100 < 100 by omega) rest
  simp only [four, hhigh, hlow, bind, Except.bind, pure, Except.pure]
  congr 2
  omega

theorem exists_of_four {part : Part} {s rest : List Char} {x : Int}
    (h : four part s = .ok (x, rest)) :
    ∃ n < 10000, x = (n : Nat) ∧ s = pair (n / 100) ++ (pair (n % 100) ++ rest) := by
  obtain ⟨⟨high, tail⟩, hhigh, h⟩ := exists_of_bind_eq_ok h
  obtain ⟨⟨low, tail'⟩, hlow, h⟩ := exists_of_bind_eq_ok h
  obtain ⟨rfl, rfl⟩ := Prod.mk.inj (Except.ok.inj h)
  obtain ⟨m, hm, rfl, rfl⟩ := exists_of_two hhigh
  obtain ⟨n, hn, rfl, rfl⟩ := exists_of_two hlow
  have hm' : (100 * m + n) / 100 = m := by omega
  have hn' : (100 * m + n) % 100 = n := by omega
  refine ⟨100 * m + n, by omega, by push_cast; rfl, ?_⟩
  rw [hm', hn']

theorem literal_cons (mark : Char) (rest : List Char) : literal mark (mark :: rest) = .ok rest :=
  if_pos rfl

theorem eq_cons_of_literal {mark : Char} {s rest : List Char} (h : literal mark s = .ok rest) :
    s = mark :: rest := by
  unfold literal at h
  split at h
  · split at h
    · next hc => rw [hc, Except.ok.inj h]
    · cases h
  · cases h

theorem separator_cons {c : Char} (h : c.utf8Size = 1) (rest : List Char) :
    separator (c :: rest) = .ok rest :=
  if_pos h

theorem exists_of_separator {s rest : List Char} (h : separator s = .ok rest) :
    ∃ c : Char, c.utf8Size = 1 ∧ s = c :: rest := by
  unfold separator at h
  split at h
  · cases h
  · next c tail =>
    split at h
    · next hc => exact ⟨c, hc, congrArg (c :: ·) (Except.ok.inj h)⟩
    · cases h

/-- A fraction ends where no digit stands. -/
theorem fraction_point {digits : List Char} (hdigits : ∀ c ∈ digits, c.isDigit = true) {c : Char}
    (hc : c.isDigit = false) (hpoint : c ≠ '.') (rest : List Char) :
    fraction (Timestamp.point digits ++ c :: rest) = .ok (c :: rest) := by
  unfold Timestamp.point
  split
  · rw [List.nil_append]
    unfold fraction
    split
    · next heq => exact absurd (List.cons.inj heq).1 hpoint
    · rfl
  · next hnonempty =>
    have htake : (digits ++ c :: rest).takeWhile Char.isDigit = digits := by
      rw [List.takeWhile_append_of_pos hdigits, List.takeWhile_cons_of_neg (by simp [hc])]
      simp
    have hdrop : (digits ++ c :: rest).dropWhile Char.isDigit = c :: rest := by
      rw [List.dropWhile_append_of_pos hdigits, List.dropWhile_cons_of_neg (by simp [hc])]
    simp [fraction, htake, hdrop, hnonempty]

theorem exists_of_fraction {s rest : List Char} (h : fraction s = .ok rest) :
    ∃ digits, (∀ c ∈ digits, c.isDigit = true) ∧ s = Timestamp.point digits ++ rest := by
  unfold fraction at h
  split at h
  · next tail =>
    split at h
    · cases h
    · next hnonempty =>
      obtain rfl := Except.ok.inj h
      refine ⟨tail.takeWhile Char.isDigit, fun c hc => List.mem_takeWhile_imp hc, ?_⟩
      rw [Timestamp.point, if_neg (by simpa using hnonempty), List.cons_append,
        List.takeWhile_append_dropWhile]
  · obtain rfl := Except.ok.inj h
    exact ⟨[], nofun, rfl⟩

theorem offset_write {zone : Zone} (h : zone.IsValid) (rest : List Char) :
    offset (zone.write ++ rest) = .ok (zone.offset, rest) := by
  cases zone with
  | universal capital => cases capital <;> rfl
  | shifted behind hours minutes =>
    obtain ⟨hhours, hminutes⟩ := h
    have hread := two_pair .offsetHour (show hours < 100 by omega) (':' :: (pair minutes ++ rest))
    have hreads := two_pair .offsetMinute (show minutes < 100 by omega) rest
    have hlate : ¬ (23 : Int) < hours := by omega
    have hmany : ¬ (59 : Int) < minutes := by omega
    cases behind <;>
      simp [Zone.write, Zone.offset, offset, hread, hreads, literal_cons, hlate, hmany, bind,
        Except.bind, pure, Except.pure]

theorem exists_of_offset {s rest : List Char} {x : Int} (h : offset s = .ok (x, rest)) :
    ∃ zone : Zone, zone.IsValid ∧ x = zone.offset ∧ s = zone.write ++ rest := by
  unfold offset at h
  split at h
  · next c tail =>
    split at h
    · next hletter =>
      obtain ⟨rfl, rfl⟩ := Prod.mk.inj (Except.ok.inj h)
      rcases hletter with rfl | rfl
      · exact ⟨.universal true, trivial, rfl, rfl⟩
      · exact ⟨.universal false, trivial, rfl, rfl⟩
    · split at h
      · next hsign =>
        obtain ⟨⟨hours, s⟩, hhours, h⟩ := exists_of_bind_eq_ok h
        obtain ⟨hlate, h⟩ := of_guard_eq_ok h
        obtain ⟨s', hcolon, h⟩ := exists_of_bind_eq_ok h
        obtain ⟨⟨minutes, s''⟩, hminutes, h⟩ := exists_of_bind_eq_ok h
        obtain ⟨hmany, h⟩ := of_guard_eq_ok h
        obtain ⟨rfl, rfl⟩ := Prod.mk.inj (Except.ok.inj h)
        obtain ⟨m, -, rfl, rfl⟩ := exists_of_two hhours
        obtain rfl := eq_cons_of_literal hcolon
        obtain ⟨n, -, rfl, rfl⟩ := exists_of_two hminutes
        refine ⟨.shifted (c = '-') m n, ⟨by omega, by omega⟩, ?_, ?_⟩
        · simp [Zone.offset]
        · rcases hsign with rfl | rfl <;> simp [Zone.write]
      · cases h
  · cases h

/-- A zone begins with a letter or a sign. -/
theorem exists_cons_of_zone (zone : Zone) :
    ∃ c rest, zone.write = c :: rest ∧ c.isDigit = false ∧ c ≠ '.' := by
  cases zone with
  | universal capital => cases capital <;> exact ⟨_, _, rfl, by decide, by decide⟩
  | shifted behind hours minutes => cases behind <;> exact ⟨_, _, rfl, by decide, by decide⟩

namespace Timestamp

theorem fraction_write {t : Timestamp} (h : t.IsReadable) :
    Rfc3339.fraction (point t.fraction ++ t.zone.write) = .ok t.zone.write := by
  obtain ⟨c, rest, hzone, hdigit, hpoint⟩ := exists_cons_of_zone t.zone
  rw [hzone]
  exact fraction_point h.fraction_digits hdigit hpoint rest

/-- A valid timestamp is read as its second. -/
theorem IsReadable.seconds?_write {t : Timestamp} (h : t.IsReadable) :
    seconds? t.write = .ok t.seconds := by
  have hmonthPos := h.month_pos
  have hmonthLe := h.month_le
  have hdayPos := h.day_pos
  have hdayLe := h.day_le
  have hhour := h.hour_le
  have hminute := h.minute_le
  have hsecond := h.second_le
  have hdays : Date.daysInMonth t.year t.month ≤ 31 := by
    unfold Date.daysInMonth
    split_ifs <;> omega
  have hoffset : Rfc3339.offset t.zone.write = .ok (t.zone.offset, []) := by
    simpa using offset_write h.zone_valid []
  have hleap : ¬ ((t.second : Int) = 60 ∧ (!endsMonth t.seconds) = true) := by
    rintro ⟨hsixty, hends⟩
    rw [h.ends_month (by omega)] at hends
    cases hends
  unfold seconds? write
  simp only [four_pair .year h.year_lt, two_pair .month (show t.month < 100 by omega),
    two_pair .day (show t.day < 100 by omega), two_pair .hour (show t.hour < 100 by omega),
    two_pair .minute (show t.minute < 100 by omega),
    two_pair .second (show t.second < 100 by omega), literal_cons,
    separator_cons h.separator_size, fraction_write h, hoffset, bind, Except.bind, pure,
    Except.pure]
  rw [if_neg (by omega), if_neg (by simp), if_neg (by omega), if_neg (by omega), if_neg (by omega),
    if_neg (by omega), if_neg (by omega)]
  exact if_neg hleap

/-- What is read as a second is written by a valid timestamp. -/
theorem exists_of_seconds? {s : List Char} {n : Int} (h : seconds? s = .ok n) :
    ∃ t : Timestamp, t.IsReadable ∧ t.write = s ∧ t.seconds = n := by
  obtain ⟨⟨year, s₁⟩, hyear, h⟩ := exists_of_bind_eq_ok h
  obtain ⟨s₂, hdash, h⟩ := exists_of_bind_eq_ok h
  obtain ⟨⟨month, s₃⟩, hmonth, h⟩ := exists_of_bind_eq_ok h
  obtain ⟨hmonthPos, h⟩ := of_guard_eq_ok h
  obtain ⟨s₄, hdash', h⟩ := exists_of_bind_eq_ok h
  obtain ⟨⟨day, s₅⟩, hday, h⟩ := exists_of_bind_eq_ok h
  obtain ⟨s₆, hseparator, h⟩ := exists_of_bind_eq_ok h
  obtain ⟨⟨hour, s₇⟩, hhour, h⟩ := exists_of_bind_eq_ok h
  obtain ⟨s₈, hcolon, h⟩ := exists_of_bind_eq_ok h
  obtain ⟨⟨minute, s₉⟩, hminute, h⟩ := exists_of_bind_eq_ok h
  obtain ⟨s₁₀, hcolon', h⟩ := exists_of_bind_eq_ok h
  obtain ⟨⟨second, s₁₁⟩, hsecond, h⟩ := exists_of_bind_eq_ok h
  obtain ⟨s₁₂, hfraction, h⟩ := exists_of_bind_eq_ok h
  obtain ⟨⟨offset, s₁₃⟩, hoffset, h⟩ := exists_of_bind_eq_ok h
  obtain ⟨htrailing, h⟩ := of_guard_eq_ok h
  obtain ⟨hmonthLe, h⟩ := of_guard_eq_ok h
  obtain ⟨hdayRange, h⟩ := of_guard_eq_ok h
  obtain ⟨hhourLe, h⟩ := of_guard_eq_ok h
  obtain ⟨hminuteLe, h⟩ := of_guard_eq_ok h
  obtain ⟨hsecondLe, h⟩ := of_guard_eq_ok h
  obtain ⟨hleap, hresult⟩ := of_guard_eq_ok h
  obtain ⟨year, hyearLt, rfl, rfl⟩ := exists_of_four hyear
  obtain rfl := eq_cons_of_literal hdash
  obtain ⟨month, -, rfl, rfl⟩ := exists_of_two hmonth
  obtain rfl := eq_cons_of_literal hdash'
  obtain ⟨day, -, rfl, rfl⟩ := exists_of_two hday
  obtain ⟨c, hc, rfl⟩ := exists_of_separator hseparator
  obtain ⟨hour, -, rfl, rfl⟩ := exists_of_two hhour
  obtain rfl := eq_cons_of_literal hcolon
  obtain ⟨minute, -, rfl, rfl⟩ := exists_of_two hminute
  obtain rfl := eq_cons_of_literal hcolon'
  obtain ⟨second, -, rfl, rfl⟩ := exists_of_two hsecond
  obtain ⟨digits, hdigits, rfl⟩ := exists_of_fraction hfraction
  obtain ⟨zone, hzone, rfl, rfl⟩ := exists_of_offset hoffset
  obtain rfl : s₁₃ = [] := not_not.mp htrailing
  rw [not_or] at hdayRange
  have hmonthLo : 1 ≤ month := by omega
  have hmonthHi : month ≤ 12 := by omega
  have hdayLo : 1 ≤ day := by omega
  have hdayHi : (day : Int) ≤ Date.daysInMonth year month := by omega
  have hhourHi : hour ≤ 23 := by omega
  have hminuteHi : minute ≤ 59 := by omega
  have hsecondHi : second ≤ 60 := by omega
  let t : Timestamp := ⟨year, month, day, c, hour, minute, second, digits, zone⟩
  have hends : second = 60 → endsMonth t.seconds = true := by
    intro hsixty
    by_contra hends
    refine hleap ⟨by omega, ?_⟩
    rw [Bool.not_eq_true']
    exact Bool.eq_false_iff.mpr hends
  refine ⟨t, ?_, ?_, Except.ok.inj hresult⟩
  · exact ⟨hyearLt, hmonthLo, hmonthHi, hdayLo, hdayHi, hc, hhourHi, hminuteHi, hsecondHi, hends,
      hdigits, hzone⟩
  · rw [write, List.append_nil]

theorem exists_seconds?_iff {s : List Char} :
    (∃ n, seconds? s = .ok n) ↔ ∃ t : Timestamp, t.IsReadable ∧ t.write = s := by
  constructor
  · rintro ⟨n, h⟩
    obtain ⟨t, hreadable, hwrite, -⟩ := exists_of_seconds? h
    exact ⟨t, hreadable, hwrite⟩
  · rintro ⟨t, hreadable, rfl⟩
    exact ⟨t.seconds, hreadable.seconds?_write⟩

end Timestamp

end Rfc3339

end Questionnaire
