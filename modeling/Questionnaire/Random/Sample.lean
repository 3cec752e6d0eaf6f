import Questionnaire.Random.ChaCha

/-! Drawing distinct positions from a stream of random words. -/
namespace Questionnaire.Sample

/-- A stream of words, by position. -/
abbrev Words := Nat → UInt32

/-- The words whose low product is above this bound are drawn again. -/
def zone (range : Nat) : Nat := (range <<< (31 - range.log2)) - 1

/-- A number below `range` from the word at a position on, and the position after it. At least half
of all words are taken, and the last attempt takes any. -/
def draw (words : Words) (range : Nat) : Nat → Nat → Nat × Nat
  | 0, position => ((words position).toNat * range / UInt32.size, position + 1)
  | attempts + 1, position =>
    let product := (words position).toNat * range
    if product % UInt32.size ≤ zone range then (product / UInt32.size, position + 1)
    else draw words range attempts (position + 1)

def attempts : Nat := 256

/-- Numbers drawn below growing ranges; one that is already taken gives way to the greatest of its
range. -/
def floyd (words : Words) (length count : Nat) : List Nat :=
  let step : List Nat × Nat → Nat → List Nat × Nat := fun (taken, position) greatest =>
    let (n, position) := draw words (greatest + 1) attempts position
    (if taken.contains n then greatest :: taken else n :: taken, position)
  ((List.range' (length - count) count).foldl step ([], 0)).1

/-- The first entries of a shuffled list: each takes the place of one drawn from those not yet
placed. -/
def shuffle (words : Words) : Nat → List Nat → Nat → List Nat
  | 0, _, _ => []
  | _ + 1, [], _ => []
  | count + 1, first :: rest, position =>
    let (k, position) := draw words (rest.length + 1) attempts position
    match k with
    | 0 => first :: shuffle words count rest position
    | k + 1 => rest.getD k first :: shuffle words count (rest.set k first) position

/-- Whether shuffling pays, by the length of the list and the number of entries drawn. The bounds
are those for lists of less than 500000 entries; others for longer lists are left out. -/
def shuffles (length count : Nat) : Bool :=
  if count < 163 then 11 < count && 5 * length < (50 + 8 * count) * count
  else length < 270 * count

/-- As many distinct positions below `length` as asked for, in no particular order. A third loop is
left out, which draws again until a position is new; it serves 163 or more entries of a list that is
at least 270 times as long, where `floyd` stands in for it. -/
def positions (words : Words) (length count : Nat) : List Nat :=
  if shuffles length count then shuffle words count (List.range length) 0
  else floyd words length count

end Questionnaire.Sample
