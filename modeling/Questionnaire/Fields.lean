/-! Named fields as association lists in ascending order of their names. -/
namespace Questionnaire

/-- Named values. Every operation below keeps the names ascending and distinct. -/
abbrev Fields (α : Type) := List (String × α)

namespace Fields

variable {α : Type}

/-- The value of the first field with a name. -/
def get? (name : String) : Fields α → Option α
  | [] => none
  | (n, v) :: rest => if n = name then some v else get? name rest

/-- Set a field, at its place in the order. -/
def insert (name : String) (value : α) : Fields α → Fields α
  | [] => [(name, value)]
  | (n, v) :: rest =>
    if n = name then (name, value) :: rest
    else if name < n then (name, value) :: (n, v) :: rest
    else (n, v) :: insert name value rest

def names (fields : Fields α) : List String := fields.map (·.1)

/-- Fields from pairs in any order; the last of several pairs with one name counts. -/
def ofList (pairs : List (String × α)) : Fields α :=
  pairs.foldl (fun fields (name, value) => insert name value fields) []

@[simp] theorem get?_nil (name : String) : get? name ([] : Fields α) = none := rfl

@[simp] theorem get?_insert_self (name : String) (value : α) (fields : Fields α) :
    get? name (insert name value fields) = some value := by
  induction fields with
  | nil => simp [insert, get?]
  | cons field rest ih =>
    obtain ⟨n, v⟩ := field
    unfold insert
    split
    · simp [get?]
    · next hn =>
      split
      · simp [get?]
      · simp [get?, hn, ih]

theorem get?_insert_of_ne {name other : String} (value : α) (fields : Fields α) (h : name ≠ other) :
    get? other (insert name value fields) = get? other fields := by
  induction fields with
  | nil => simp [insert, get?, h]
  | cons field rest ih =>
    obtain ⟨n, v⟩ := field
    unfold insert
    split
    · next hn => subst hn; simp [get?, h]
    · split
      · simp [get?, h]
      · simp [get?, ih]

end Fields

end Questionnaire
