import Questionnaire.Proofs.Addresses
import Questionnaire.Proofs.Congruence

/-! Fields of records by dotted paths: one access with a path against two with its parts, and the
paths of the root record against those of the attributes. -/
namespace Questionnaire

/-- Errors that differ at most in what they tell. -/
def Error.OfOneKind (a b : Error) : Prop := a.ctorIdx = b.ctorIdx

namespace Value

theorem walk_append (first second : List String) (v : Value) :
    walk (first ++ second) v = (walk first v).bind (walk second) := by
  induction first generalizing v with
  | nil => simp [walk]
  | cons segment first ih =>
    cases v with
    | record fields =>
      rw [List.cons_append, walk, walk, Option.bind_assoc]
      congr 1
      funext field
      exact ih field
    | _ => rfl

theorem walk_eq_none {path : List String} (hpath : path ≠ []) {v : Value} (hv : v.kind ≠ .record) :
    walk path v = none := by
  cases path with
  | nil => exact absurd rfl hpath
  | cons segment path =>
    cases v with
    | record fields => exact absurd rfl hv
    | _ => rfl

end Value

namespace Operator
open Text

/-- The field at a path of a base that may have no value. -/
def fieldAt (op : Operator) (base : Outcome) (name : String) : Outcome :=
  base.bind fun v => op.field v name

theorem fieldAt_error (op : Operator) (e : Error) (name : String) :
    op.fieldAt (.error e) name = .error e := rfl

theorem fieldAt_of_kind_ne (op : Operator) (name : String) {v : Value} (hv : v.kind ≠ .record) :
    op.fieldAt (.ok v) name = .error (.typeError op.name (.baseNotRecord v.kind)) := by
  cases v with
  | record fields => exact absurd rfl hv
  | _ => rfl

theorem fieldAt_record (op : Operator) (name : String) {v : Value} (hv : v.kind = .record) :
    op.fieldAt (.ok v) name =
      (Value.walk (segments name) v).elim (.error (.missingAttribute name)) .ok := by
  cases v with
  | record fields =>
    change op.field (.record fields) name = _
    rw [field]
    cases Value.walk (segments name) (.record fields) <;> rfl
  | _ => cases hv

theorem fieldAt_eq_ok_iff (op : Operator) (base : Outcome) (name : String) (w : Value) :
    op.fieldAt base name = .ok w ↔
      ∃ v, base = .ok v ∧ Value.walk (segments name) v = some w := by
  cases base with
  | error e => simp [fieldAt_error]
  | ok v =>
    by_cases hv : v.kind = .record
    · rw [fieldAt_record op name hv]
      cases hwalk : Value.walk (segments name) v <;> simp [hwalk]
    · rw [fieldAt_of_kind_ne op name hv]
      simp [Value.walk_eq_none (segments_ne_nil name) hv]

theorem fieldAt_append_dot_eq_ok_iff (op : Operator) (base : Outcome) (p q : String) (w : Value) :
    op.fieldAt base (p ++ "." ++ q) = .ok w ↔
      op.fieldAt (op.fieldAt base p) q = .ok w := by
  simp only [fieldAt_eq_ok_iff, segments_append_dot, Value.walk_append, Option.bind_eq_some_iff]
  constructor
  · rintro ⟨v, hv, u, hu, hw⟩
    exact ⟨u, ⟨v, hv, hu⟩, hw⟩
  · rintro ⟨u, ⟨v, hv, hu⟩, hw⟩
    exact ⟨v, hv, u, hu, hw⟩

/-- There are no fields, or the base is a record. -/
theorem fieldAt_cases (op : Operator) (base : Outcome) :
    (∃ e, ∀ name, op.fieldAt base name = .error e) ∨
      ∃ v, base = .ok v ∧ v.kind = .record := by
  cases base with
  | error e => exact .inl ⟨e, fun _ => rfl⟩
  | ok v =>
    by_cases hv : v.kind = .record
    · exact .inr ⟨v, rfl, hv⟩
    · exact .inl ⟨_, fun name => fieldAt_of_kind_ne op name hv⟩

theorem fieldAt_record_eq_error_iff (op : Operator) {name : String} {v : Value} {e : Error}
    (hv : v.kind = .record) :
    op.fieldAt (.ok v) name = .error e ↔
      Value.walk (segments name) v = none ∧ e = .missingAttribute name := by
  rw [fieldAt_record op name hv]
  cases Value.walk (segments name) v with
  | none => simp [eq_comm]
  | some w => simp

/-- Where neither way has a value the errors are of one kind, unless the first part of the path
leads to something without fields: then one way misses an attribute and the other has a base of the
wrong type. -/
theorem ofOneKind_of_fieldAt_iff {op : Operator} {base : Outcome} {p q : String} {e e' : Error}
    (h : op.fieldAt base (p ++ "." ++ q) = .error e)
    (h' : op.fieldAt (op.fieldAt base p) q = .error e') :
    e.OfOneKind e' ↔ ∀ v, op.fieldAt base p = .ok v → v.kind = .record := by
  rcases fieldAt_cases op base with ⟨fault, hfault⟩ | ⟨v, rfl, hv⟩
  · rw [hfault] at h h' ⊢
    obtain rfl := Except.error.inj h
    obtain rfl := Except.error.inj h'
    exact iff_of_true rfl nofun
  · obtain ⟨-, rfl⟩ := (fieldAt_record_eq_error_iff op hv).mp h
    cases hp : op.fieldAt (.ok v) p with
    | error fault =>
      obtain ⟨-, rfl⟩ := (fieldAt_record_eq_error_iff op hv).mp hp
      rw [hp] at h'
      obtain rfl := Except.error.inj h'
      exact iff_of_true rfl nofun
    | ok u =>
      rw [hp] at h'
      by_cases hu : u.kind = .record
      · obtain ⟨-, rfl⟩ := (fieldAt_record_eq_error_iff op hu).mp h'
        exact iff_of_true rfl fun w hw => Except.ok.inj hw ▸ hu
      · rw [fieldAt_of_kind_ne op q hu] at h'
        obtain rfl := Except.error.inj h'
        exact iff_of_false nofun fun hall => hu (hall u rfl)

end Operator

namespace Context

/-- Set attributes one after another. -/
def insertAttributes (ctx : Context) (attributes : List (String × Value)) : Context :=
  attributes.foldl (fun ctx a => ctx.insertAttribute a.1 a.2) ctx

theorem insertAttributes_kept (ctx : Context) (attributes : List (String × Value)) :
    (ctx.insertAttributes attributes).evaluationTime = ctx.evaluationTime ∧
      (ctx.insertAttributes attributes).participantId = ctx.participantId := by
  induction attributes generalizing ctx with
  | nil => exact ⟨rfl, rfl⟩
  | cons a rest ih => exact ih (ctx.insertAttribute a.1 a.2)

theorem get?_rootFields_evaluationTime (ctx : Context) :
    Fields.get? "evaluationTime" ctx.rootFields = some (.int ctx.evaluationTime.toInt) :=
  Fields.get?_insert_self _ _ _

theorem get?_rootFields_participantId {ctx : Context} {id : String}
    (h : ctx.participantId = some id) :
    Fields.get? "participantId" ctx.rootFields = some (.text id) := by
  have hne : "evaluationTime" ≠ "participantId" := by decide
  rw [rootFields, Fields.get?_insert_of_ne _ _ hne, h]
  exact Fields.get?_insert_self _ _ _

end Context

namespace Expression
open Text

theorem evaluate_getAttribute (ctx : Context) (base : Expression) (name : String) :
    (getAttribute base name).evaluate ctx =
      Operator.getAttribute.fieldAt (base.evaluate ctx) name := by
  rw [getAttribute, evaluate_call]
  rfl

theorem evaluate_getAttribute_getContext (ctx : Context) (path : String) :
    (getAttribute getContext path).evaluate ctx =
      (Value.walk (segments path) ctx.rootRecord).elim (.error (.missingAttribute path)) .ok := by
  rw [evaluate_getAttribute]
  exact Operator.fieldAt_record .getAttribute path rfl

/-- A scalar field of the root record is what its own name leads to, and beyond it there is
nothing. -/
theorem evaluate_getAttribute_of_head {ctx : Context} {name path : String} {v : Value}
    (hname : '.' ∉ name.toList) (hv : v.kind ≠ .record)
    (hget : Fields.get? name ctx.rootFields = some v) (hpath : (segments path).head? = some name) :
    (getAttribute getContext path).evaluate ctx =
      if path = name then .ok v else .error (.missingAttribute path) := by
  obtain ⟨segment, rest, hsegments⟩ := List.exists_cons_of_ne_nil (segments_ne_nil path)
  rw [hsegments, List.head?_cons, Option.some.injEq] at hpath
  subst hpath
  have hself : path = segment ↔ rest = [] := by
    constructor
    · intro heq
      rw [heq, segments_of_undotted hname] at hsegments
      exact (List.cons.inj hsegments).2.symm
    · intro hrest
      exact eq_of_segments_eq (by rw [hsegments, hrest, segments_of_undotted hname])
  rw [evaluate_getAttribute_getContext, hsegments, Context.rootRecord, Context.walk_cons, hget,
    Option.bind_some]
  by_cases hrest : rest = []
  · rw [if_pos (hself.mpr hrest), hrest]
    rfl
  · rw [if_neg fun heq => hrest (hself.mp heq), Value.walk_eq_none hrest hv]
    rfl

theorem evaluate_getAttribute_of_unreserved {ctx : Context} {path : String}
    (htime : (segments path).head? ≠ some "evaluationTime")
    (hparticipant : ctx.participantId.isSome → (segments path).head? ≠ some "participantId") :
    (getAttribute getContext path).evaluate ctx =
      (ctx.attribute? path).elim (.error (.missingAttribute path)) .ok := by
  rw [evaluate_getAttribute_getContext, ctx.walk_rootRecord]
  · rw [leadsTo_iff_of_undotted (by decide)]
    exact hparticipant
  · rw [leadsTo_iff_of_undotted (by decide)]
    exact htime

/-- One access with a dotted path has the values of two with its parts, and where there are none the
errors are of one kind unless the first part leads to a value without fields. In the root record a
path leads to the attribute there is at it, but for the paths that begin with the time of evaluation
or with the participant, if there is one: these two are the context's own whatever attributes are
set. -/
theorem dotted_access_agrees (ctx : Context) :
    (∀ base p q,
      (∀ v, (getAttribute base (p ++ "." ++ q)).evaluate ctx = .ok v ↔
        (getAttribute (getAttribute base p) q).evaluate ctx = .ok v) ∧
      ∀ e e', (getAttribute base (p ++ "." ++ q)).evaluate ctx = .error e →
        (getAttribute (getAttribute base p) q).evaluate ctx = .error e' →
        (e.OfOneKind e' ↔ ∀ v, (getAttribute base p).evaluate ctx = .ok v → v.kind = .record)) ∧
    (∀ path, (segments path).head? ≠ some "evaluationTime" →
      (ctx.participantId.isSome → (segments path).head? ≠ some "participantId") →
      (∀ v, (getAttribute getContext path).evaluate ctx = .ok v ↔ ctx.attribute? path = some v) ∧
      ((getAttribute getContext path).evaluate ctx = .error (.missingAttribute path) ↔
        ctx.attribute? path = none)) ∧
    ∀ attributes path,
      ((segments path).head? = some "evaluationTime" →
        (getAttribute getContext path).evaluate (ctx.insertAttributes attributes) =
          if path = "evaluationTime" then .ok (.int ctx.evaluationTime.toInt)
          else .error (.missingAttribute path)) ∧
      ∀ id, ctx.participantId = some id → (segments path).head? = some "participantId" →
        (getAttribute getContext path).evaluate (ctx.insertAttributes attributes) =
          if path = "participantId" then .ok (.text id) else .error (.missingAttribute path) := by
  refine ⟨fun base p q => ⟨fun v => ?_, fun e e' h h' => ?_⟩, fun path htime hparticipant => ?_, ?_⟩
  · simp only [evaluate_getAttribute]
    exact Operator.fieldAt_append_dot_eq_ok_iff .getAttribute (base.evaluate ctx) p q v
  · simp only [evaluate_getAttribute] at h h' ⊢
    exact Operator.ofOneKind_of_fieldAt_iff h h'
  · rw [evaluate_getAttribute_of_unreserved htime hparticipant]
    cases ctx.attribute? path <;> simp
  · intro attributes path
    obtain ⟨htime, hparticipant⟩ := ctx.insertAttributes_kept attributes
    rw [← htime, ← hparticipant]
    have hnumber : Kind.number ≠ .record := by decide
    have htext : Kind.text ≠ .record := by decide
    refine ⟨fun hpath => ?_, fun id hid hpath => ?_⟩
    · exact evaluate_getAttribute_of_head (by decide) hnumber
        (Context.get?_rootFields_evaluationTime _) hpath
    · exact evaluate_getAttribute_of_head (by decide) htext
        (Context.get?_rootFields_participantId hid) hpath

/-- A context with a participant and with a field of a record among its attributes. -/
def modeOfParticipant : Context :=
  ((Context.empty 1000).withParticipantId "p-7").insertAttribute "mode.kind" (.text "web")

/-- Beyond a text there is no attribute by one access, and no base for the other. -/
theorem mode_accessed :
    (getAttribute getContext "mode.kind").evaluate modeOfParticipant = .ok (.text "web") ∧
      (getAttribute (getAttribute getContext "mode") "kind").evaluate modeOfParticipant =
        .ok (.text "web") ∧
      ¬ (Error.missingAttribute "mode.kind.x").OfOneKind
        (.typeError "getAttribute" (.baseNotRecord .text)) ∧
      (getAttribute getContext "evaluationTime").evaluate
        (modeOfParticipant.insertAttributes [("evaluationTime", .text "noon")]) = .ok (.int 1000) ∧
      (getAttribute getContext "participantId").evaluate
        (modeOfParticipant.insertAttributes [("participantId.x", .null)]) = .ok (.text "p-7") := by
  obtain ⟨hparts, hattributes, hreserved⟩ := dotted_access_agrees modeOfParticipant
  obtain ⟨hvalue, -⟩ := hattributes "mode.kind" (by decide) (fun _ => by decide)
  have hmode := (hvalue (.text "web")).mpr rfl
  have htime := (hreserved [("evaluationTime", .text "noon")] "evaluationTime").1 (by decide)
  have hparticipant :=
    (hreserved [("participantId.x", .null)] "participantId").2 "p-7" rfl (by decide)
  refine ⟨hmode, ((hparts getContext "mode" "kind").1 _).mp hmode, fun hkind => ?_, htime,
    hparticipant⟩
  have hrecord := ((hparts getContext "mode.kind" "x").2 _ _ rfl rfl).mp hkind
  cases hrecord (.text "web") hmode

end Expression

end Questionnaire
