import Questionnaire.Context

/-! Nested records after a value was set at the end of a path: what is at a path that goes on from
there, at one that leads there, and at one that branches off. -/
namespace Questionnaire.Context

theorem insertAt_cons (value : Value) (segment : String) {path : List String} (h : path ≠ [])
    (fields : Fields Value) :
    insertAt value (segment :: path) fields = Fields.insert segment
      (.record (insertAt value path (fieldsOf (Fields.get? segment fields)))) fields := by
  cases path with
  | nil => exact absurd rfl h
  | cons next path => rfl

theorem walk_cons (segment : String) (path : List String) (fields : Fields Value) :
    Value.walk (segment :: path) (.record fields) =
      (Fields.get? segment fields).bind (Value.walk path) := by
  rw [Value.walk]

/-- Nothing but a record has anything at the end of a path. -/
theorem walk_fieldsOf {path : List String} (h : path ≠ []) (o : Option Value) :
    Value.walk path (.record (fieldsOf o)) = o.bind (Value.walk path) := by
  cases path with
  | nil => exact absurd rfl h
  | cons segment path =>
    cases o with
    | none => rfl
    | some v => cases v <;> rfl

theorem walk_insertAt_append (value : Value) {path : List String} (h : path ≠ [])
    (rest : List String) (fields : Fields Value) :
    Value.walk (path ++ rest) (.record (insertAt value path fields)) = Value.walk rest value := by
  induction path generalizing fields with
  | nil => exact absurd rfl h
  | cons segment path ih =>
    rw [List.cons_append, walk_cons]
    by_cases hpath : path = []
    · subst hpath
      rw [insertAt, Fields.get?_insert_self]
      rfl
    · rw [insertAt_cons value segment hpath, Fields.get?_insert_self, Option.bind_some, ih hpath]

/-- On the way to the value that was set there are records. -/
theorem walk_insertAt_above (value : Value) (path : List String) {rest : List String}
    (h : rest ≠ []) (fields : Fields Value) :
    ∃ inner, Value.walk path (.record (insertAt value (path ++ rest) fields)) =
      some (.record inner) := by
  induction path generalizing fields with
  | nil => exact ⟨_, rfl⟩
  | cons segment path ih =>
    have hpath : path ++ rest ≠ [] := List.append_ne_nil_of_right_ne_nil path h
    rw [List.cons_append, insertAt_cons value segment hpath, walk_cons, Fields.get?_insert_self]
    exact ih _

/-- A path that neither goes on from the one at which a value is set nor leads to it has what it
had. -/
theorem walk_insertAt_of_apart (value : Value) {path other : List String}
    (hpath : ¬ path <+: other) (hother : ¬ other <+: path) (fields : Fields Value) :
    Value.walk other (.record (insertAt value path fields)) =
      Value.walk other (.record fields) := by
  induction path generalizing other fields with
  | nil => exact absurd List.nil_prefix hpath
  | cons segment path ih =>
    cases other with
    | nil => exact absurd List.nil_prefix hother
    | cons first rest =>
      rw [walk_cons, walk_cons]
      by_cases hfirst : segment = first
      -- The paths part further down, so that neither of them ends here.
      · subst hfirst
        rw [List.prefix_cons_inj] at hpath hother
        have hnil : path ≠ [] := fun h => hpath (h ▸ List.nil_prefix)
        have hrest : rest ≠ [] := fun h => hother (h ▸ List.nil_prefix)
        rw [insertAt_cons value segment hnil, Fields.get?_insert_self, Option.bind_some,
          ih hpath hother, walk_fieldsOf hrest]
      · have hget : ∀ v, Fields.get? first (Fields.insert segment v fields) =
            Fields.get? first fields := fun v => Fields.get?_insert_of_ne v fields hfirst
        cases path with
        | nil => rw [insertAt, hget]
        | cons next path => rw [insertAt_cons value segment (List.cons_ne_nil _ _), hget]

end Questionnaire.Context
