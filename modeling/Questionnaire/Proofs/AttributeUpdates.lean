import Questionnaire.Proofs.NestedUpdate
import Questionnaire.Proofs.Segments

/-! Attributes after one of them was set: what is there, above it and below it, and what stays. Two
of them that branch off from each other can be set in either order. -/
namespace Questionnaire

namespace Fields
variable {α : Type} {name n : String} {value v : α} {rest : Fields α}

theorem insert_cons_self : insert name value ((name, v) :: rest) = (name, value) :: rest :=
  if_pos rfl

theorem insert_cons_of_lt (h : name < n) :
    insert name value ((n, v) :: rest) = (name, value) :: (n, v) :: rest := by
  rw [insert, if_neg (String.ne_of_lt h).symm, if_pos h]

theorem insert_cons_of_gt (h : n < name) :
    insert name value ((n, v) :: rest) = (n, v) :: insert name value rest := by
  rw [insert, if_neg (String.ne_of_lt h), if_neg (String.lt_asymm h)]

/-- Of two values that are set at one name the second counts. -/
theorem insert_insert (name : String) (value old : α) (fields : Fields α) :
    insert name value (insert name old fields) = insert name value fields := by
  induction fields with
  | nil => exact insert_cons_self
  | cons field rest ih =>
    obtain ⟨n, v⟩ := field
    rcases Std.lt_trichotomy name n with h | rfl | h
    · rw [insert_cons_of_lt h, insert_cons_of_lt h, insert_cons_self]
    · rw [insert_cons_self, insert_cons_self, insert_cons_self]
    · rw [insert_cons_of_gt h, insert_cons_of_gt h, insert_cons_of_gt h, ih]

private theorem insert_comm_of_lt {a b : String} (h : a < b) (v w : α) (fields : Fields α) :
    insert a v (insert b w fields) = insert b w (insert a v fields) := by
  induction fields with
  | nil =>
    change insert a v [(b, w)] = insert b w [(a, v)]
    rw [insert_cons_of_lt h, insert_cons_of_gt h, insert]
  | cons field rest ih =>
    obtain ⟨n, x⟩ := field
    rcases Std.lt_trichotomy a n with ha | rfl | ha
    -- The first name goes before all others, and so before what becomes of them.
    · rw [insert_cons_of_lt ha, insert_cons_of_gt h]
      rcases Std.lt_trichotomy b n with hb | rfl | hb
      · rw [insert_cons_of_lt hb, insert_cons_of_lt h]
      · rw [insert_cons_self, insert_cons_of_lt h]
      · rw [insert_cons_of_gt hb, insert_cons_of_lt ha]
    · rw [insert_cons_self, insert_cons_of_gt h, insert_cons_of_gt h, insert_cons_self]
    · have hb : n < b := String.lt_trans ha h
      rw [insert_cons_of_gt ha, insert_cons_of_gt hb, insert_cons_of_gt hb, insert_cons_of_gt ha,
        ih]

theorem insert_comm {a b : String} (h : a ≠ b) (v w : α) (fields : Fields α) :
    insert a v (insert b w fields) = insert b w (insert a v fields) := by
  rcases Std.lt_trichotomy a b with hlt | heq | hlt
  · exact insert_comm_of_lt hlt v w fields
  · exact absurd heq h
  · exact (insert_comm_of_lt hlt w v fields).symm

end Fields

namespace Context
open Text

/-- What the first name on a path has after a value was set at the end of the path, by what it
had. -/
def nestedValue (value : Value) : List String → Option Value → Value
  | [], _ => value
  | segment :: path, old => .record (insertAt value (segment :: path) (fieldsOf old))

theorem insertAt_eq_insert (value : Value) (segment : String) (path : List String)
    (fields : Fields Value) :
    insertAt value (segment :: path) fields =
      Fields.insert segment (nestedValue value path (Fields.get? segment fields)) fields := by
  cases path <;> rfl

/-- Values can be set in either order at paths that branch off from each other. -/
theorem insertAt_comm (v w : Value) {p q : List String} (hpq : ¬ p <+: q) (hqp : ¬ q <+: p)
    (fields : Fields Value) :
    insertAt v p (insertAt w q fields) = insertAt w q (insertAt v p fields) := by
  induction p generalizing q fields with
  | nil => exact absurd List.nil_prefix hpq
  | cons a p ih =>
    cases q with
    | nil => exact absurd List.nil_prefix hqp
    | cons b q =>
      by_cases hab : a = b
      -- Both paths go on below one name, and part further down.
      · subst hab
        rw [List.prefix_cons_inj] at hpq hqp
        have hp : p ≠ [] := fun h => hpq (h ▸ List.nil_prefix)
        have hq : q ≠ [] := fun h => hqp (h ▸ List.nil_prefix)
        simp only [insertAt_cons v a hp, insertAt_cons w a hq, Fields.get?_insert_self, fieldsOf,
          Fields.insert_insert, ih hpq hqp]
      · rw [insertAt_eq_insert w, insertAt_eq_insert v, Fields.get?_insert_of_ne _ _ (Ne.symm hab),
          insertAt_eq_insert v, insertAt_eq_insert w, Fields.get?_insert_of_ne _ _ hab,
          Fields.insert_comm hab]

section
variable (ctx : Context) {p q : String} (v : Value)

theorem attribute?_insertAttribute_append {rest : List String}
    (hq : segments q = segments p ++ rest) :
    (ctx.insertAttribute p v).attribute? q = Value.walk rest v := by
  rw [attribute?, hq]
  exact walk_insertAt_append v (segments_ne_nil p) rest ctx.attributes

theorem attribute?_insertAttribute_self : (ctx.insertAttribute p v).attribute? p = some v :=
  ctx.attribute?_insertAttribute_append v (List.append_nil _).symm

theorem attribute?_insertAttribute_of_apart (hpq : ¬ LeadsTo p q) (hqp : ¬ LeadsTo q p) :
    (ctx.insertAttribute p v).attribute? q = ctx.attribute? q :=
  walk_insertAt_of_apart v hpq hqp ctx.attributes

theorem exists_record_above (h : GoesOnFrom p q) :
    ∃ fields, (ctx.insertAttribute p v).attribute? q = some (.record fields) := by
  obtain ⟨⟨rest, hrest⟩, hne⟩ := h
  have hrest_ne : rest ≠ [] := by
    rintro rfl
    exact hne (by rw [← hrest, List.append_nil])
  rw [attribute?, insertAttribute, ← hrest]
  exact walk_insertAt_above v (segments q) hrest_ne ctx.attributes

theorem insertAttribute_comm (w : Value) (hpq : ¬ LeadsTo p q) (hqp : ¬ LeadsTo q p) :
    (ctx.insertAttribute p v).insertAttribute q w =
      (ctx.insertAttribute q w).insertAttribute p v := by
  have hfields := insertAt_comm w v hqp hpq ctx.attributes
  simp only [insertAttribute, hfields]

end

/-- To set an attribute is to put a value at the end of a path of records: it is there, what the
path goes on to is within it, all on the way is a record, and all that branches off is as before, as
is the rest of the context. Where two paths branch off from each other, the order does not
matter. -/
theorem attributes_are_set_apart (ctx : Context) (p : String) (v : Value) :
    (ctx.insertAttribute p v).attribute? p = some v ∧
    (∀ q, ¬ LeadsTo p q → ¬ LeadsTo q p →
      (ctx.insertAttribute p v).attribute? q = ctx.attribute? q) ∧
    (∀ q, GoesOnFrom p q →
      ∃ fields, (ctx.insertAttribute p v).attribute? q = some (.record fields)) ∧
    (∀ q rest, segments q = segments p ++ rest →
      (ctx.insertAttribute p v).attribute? q = Value.walk rest v) ∧
    (ctx.insertAttribute p v).responses = ctx.responses ∧
    (ctx.insertAttribute p v).participantId = ctx.participantId ∧
    (ctx.insertAttribute p v).evaluationTime = ctx.evaluationTime ∧
    ∀ q w, ¬ LeadsTo p q → ¬ LeadsTo q p →
      (ctx.insertAttribute p v).insertAttribute q w =
        (ctx.insertAttribute q w).insertAttribute p v :=
  ⟨ctx.attribute?_insertAttribute_self v,
    fun _ hpq hqp => ctx.attribute?_insertAttribute_of_apart v hpq hqp,
    fun _ hq => ctx.exists_record_above v hq,
    fun _ _ hq => ctx.attribute?_insertAttribute_append v hq, rfl, rfl, rfl,
    fun _ w hpq hqp => ctx.insertAttribute_comm v w hpq hqp⟩

/-- A context with two texts for attributes. -/
def webContext : Context :=
  ((empty 0).insertAttribute "lang" (.text "nl")).insertAttribute "mode" (.text "web")

/-- A record below a text takes the place of the text, and leaves the other attribute alone. -/
theorem kiosk_set_below_text :
    let kiosk : Value := .record [("site", .text "hall")]
    let ctx := webContext.insertAttribute "mode.kind" kiosk
    ctx.attribute? "lang" = some (.text "nl") ∧
      (∃ fields, ctx.attribute? "mode" = some (.record fields)) ∧
      ctx.attribute? "mode.kind.site" = some (.text "hall") ∧
      ctx.insertAttribute "mode.place" (.int 2) =
        (webContext.insertAttribute "mode.place" (.int 2)).insertAttribute "mode.kind" kiosk := by
  intro kiosk ctx
  obtain ⟨-, hapart, habove, hbelow, -, -, -, hcomm⟩ :=
    attributes_are_set_apart webContext "mode.kind" kiosk
  refine ⟨?_, habove "mode" (by decide +kernel),
    hbelow "mode.kind.site" ["site"] (by decide +kernel),
    hcomm "mode.place" (.int 2) (by decide +kernel) (by decide +kernel)⟩
  exact (hapart "lang" (by decide +kernel) (by decide +kernel)).trans rfl

end Context

end Questionnaire
