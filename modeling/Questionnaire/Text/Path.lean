/-! Dotted paths and their segments. -/
namespace Questionnaire.Text

/-- The texts between the dots, at least one of them. -/
def splitAtDots : List Char → List (List Char)
  | [] => [[]]
  | c :: rest =>
    if c = '.' then [] :: splitAtDots rest
    else
      match splitAtDots rest with
      | [] => [[c]]
      | segment :: others => (c :: segment) :: others

theorem splitAtDots_ne_nil (s : List Char) : splitAtDots s ≠ [] := by
  cases s with
  | nil => simp [splitAtDots]
  | cons c rest =>
    unfold splitAtDots
    split
    · simp
    · split <;> simp

/-- The segments of a dotted path, in order. -/
def segments (path : String) : List String :=
  (splitAtDots path.toList).map String.ofList

theorem segments_ne_nil (path : String) : segments path ≠ [] := by
  simp [segments, splitAtDots_ne_nil]

end Questionnaire.Text
