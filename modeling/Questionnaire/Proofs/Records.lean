import Mathlib.Data.List.Forall2
import Questionnaire.Document.Shape

/-! What a record that was read has from each of its fields: of several parts for one field, what
the last one reads as. -/
namespace Questionnaire

section
variable {ε α β : Type}

theorem exists_of_bind_eq_ok {x : Except ε α} {f : α → Except ε β} {b : β}
    (h : (x >>= f) = .ok b) : ∃ a, x = .ok a ∧ f a = .ok b := by
  cases x with
  | error e => cases h
  | ok a => exact ⟨a, rfl, h⟩

theorem exists_of_map_eq_ok {x : Except ε α} {f : α → β} {b : β} (h : x.map f = .ok b) :
    ∃ a, x = .ok a ∧ f a = b := by
  cases x with
  | error e => cases h
  | ok a => exact ⟨a, rfl, Except.ok.inj h⟩

theorem exists_bind_eq_ok {x : Except ε α} {f : α → β} (h : ∃ a, x = .ok a) :
    ∃ b, (x >>= fun a => pure (f a)) = .ok b := by
  obtain ⟨a, rfl⟩ := h
  exact ⟨f a, rfl⟩

theorem forall₂_of_mapM_eq_ok {f : α → Except ε β} {xs : List α} {ys : List β}
    (h : xs.mapM f = .ok ys) : List.Forall₂ (fun x y => f x = .ok y) xs ys := by
  induction xs generalizing ys with
  | nil =>
    obtain rfl : [] = ys := Except.ok.inj h
    exact .nil
  | cons x xs ih =>
    rw [List.mapM_cons] at h
    obtain ⟨y, hy, h⟩ := exists_of_bind_eq_ok h
    obtain ⟨rest, hrest, h⟩ := exists_of_bind_eq_ok h
    obtain rfl : y :: rest = ys := Except.ok.inj h
    exact .cons hy (ih hrest)

/-- What all parts are read as has a property that each of them brings. -/
theorem forall_of_mapM_eq_ok {f : α → Except ε β} {p : β → Prop} (hp : ∀ {a b}, f a = .ok b → p b)
    {xs : List α} {ys : List β} (h : xs.mapM f = .ok ys) : ∀ y ∈ ys, p y := by
  have hread := forall₂_of_mapM_eq_ok h
  clear h
  induction hread with
  | nil => exact nofun
  | cons hxy _ ih => exact List.forall_mem_cons.mpr ⟨hp hxy, ih⟩

/-- A recursion of its own over a list that goes element by element is a map. -/
theorem eq_map_of_recursion {f : α → β} {g : List α → List β} (hnil : g [] = [])
    (hcons : ∀ x rest, g (x :: rest) = f x :: g rest) (xs : List α) : g xs = xs.map f := by
  induction xs with
  | nil => rw [hnil, List.map_nil]
  | cons x rest ih => rw [hcons, ih, List.map_cons]

/-- A recursion of its own over a list that asks something of each element asks it of all. -/
theorem iff_forall_of_recursion {p : α → Prop} {q : List α → Prop} (hnil : q [])
    (hcons : ∀ x rest, q (x :: rest) ↔ p x ∧ q rest) (xs : List α) : q xs ↔ ∀ x ∈ xs, p x := by
  induction xs with
  | nil => exact iff_of_true hnil nofun
  | cons x rest ih => rw [hcons, ih, List.forall_mem_cons]

/-- The value of the last field with a name. -/
def last? (name : String) : List (String × β) → Option β
  | [] => none
  | (n, b) :: rest => (last? name rest).or (if n = name then some b else none)

theorem last?_map (f : α → β) (name : String) (fields : List (String × α)) :
    last? name (fields.map fun (n, a) => (n, f a)) = (last? name fields).map f := by
  induction fields with
  | nil => rfl
  | cons field rest ih =>
    obtain ⟨n, a⟩ := field
    rw [List.map_cons, last?, last?, ih, Option.map_or]
    split <;> rfl

theorem mem_of_last?_eq_some {β : Type} {name : String} {fields : List (String × β)} {b : β}
    (h : last? name fields = some b) : (name, b) ∈ fields := by
  induction fields with
  | nil => cases h
  | cons field rest ih =>
    obtain ⟨n, c⟩ := field
    rw [last?, Option.or_eq_some_iff] at h
    rcases h with h | ⟨-, h⟩
    · exact List.mem_cons_of_mem _ (ih h)
    · split at h
      · next hn =>
        obtain rfl := Option.some.inj h
        exact hn ▸ List.mem_cons_self
      · cases h

theorem last?_rel {R : α → β → Prop} (name : String) {xs : List (String × α)}
    {ys : List (String × β)} (h : List.Forall₂ (fun x y => x.1 = y.1 ∧ R x.2 y.2) xs ys) :
    Option.Rel R (last? name xs) (last? name ys) := by
  induction h with
  | nil => exact .none
  | @cons x y xs ys hxy _ ih =>
    obtain ⟨n, a⟩ := x
    obtain ⟨m, b⟩ := y
    obtain ⟨rfl, hR⟩ := hxy
    rw [last?, last?]
    generalize last? name xs = later, last? name ys = later' at ih ⊢
    cases ih with
    | some hab => exact .some hab
    | none =>
      simp only [Option.none_or]
      split
      · exact .some hR
      · exact .none

/-- What a component of a draft is after all parts: what the last part with its name reads as, or
what it was without one. -/
theorem component_of_foldlM {δ γ : Type} (put : δ → String → β → Except ε δ) (component : δ → γ)
    (name : String) (read : β → Except ε γ)
    (hput : ∀ {d n b d'}, put d n b = .ok d' →
      (n = name ∧ read b = .ok (component d')) ∨ (n ≠ name ∧ component d' = component d))
    {parts : List (String × β)} {start result : δ}
    (h : parts.foldlM (fun d (n, b) => put d n b) start = .ok result) :
    (last? name parts).elim (.ok (component start)) read = .ok (component result) := by
  induction parts generalizing start with
  | nil =>
    obtain rfl : start = result := Except.ok.inj h
    rfl
  | cons part rest ih =>
    obtain ⟨n, b⟩ := part
    rw [List.foldlM_cons] at h
    obtain ⟨next, hnext, h⟩ := exists_of_bind_eq_ok h
    have hrest := ih h
    rw [last?]
    cases hlast : last? name rest with
    | some c =>
      rw [hlast] at hrest
      exact hrest
    | none =>
      rw [hlast] at hrest
      have hsame : component next = component result := Except.ok.inj hrest
      rcases hput hnext with ⟨rfl, hread⟩ | ⟨hn, hkept⟩
      · simp only [Option.none_or, if_true]
        rw [← hsame]
        exact hread
      · simp only [Option.none_or, if_neg hn]
        rw [← hsame]
        exact congrArg Except.ok hkept.symm

/-- Steps up to one of them, that one, and those after it. -/
theorem exists_of_foldlM_append_cons {δ : Type} {step : δ → α → Except ε δ} {before after : List α}
    {x : α} {start result : δ} (h : (before ++ x :: after).foldlM step start = .ok result) :
    ∃ d d', step d x = .ok d' ∧ after.foldlM step d' = .ok result := by
  rw [List.foldlM_append] at h
  obtain ⟨d, -, h⟩ := exists_of_bind_eq_ok h
  rw [List.foldlM_cons] at h
  obtain ⟨d', hstep, h⟩ := exists_of_bind_eq_ok h
  exact ⟨d, d', hstep, h⟩

/-- What every step keeps holds after all steps. -/
theorem holds_of_foldlM {δ : Type} {step : δ → α → Except ε δ} {p : δ → Prop} {xs : List α}
    (hstep : ∀ x ∈ xs, ∀ {d d'}, p d → step d x = .ok d' → p d') {start result : δ}
    (hstart : p start) (h : xs.foldlM step start = .ok result) : p result := by
  induction xs generalizing start with
  | nil =>
    obtain rfl : start = result := Except.ok.inj h
    exact hstart
  | cons x rest ih =>
    obtain ⟨hfirst, hrest⟩ := List.forall_mem_cons.mp hstep
    rw [List.foldlM_cons] at h
    obtain ⟨next, hnext, h⟩ := exists_of_bind_eq_ok h
    exact ih hrest (hfirst hstart hnext) h

/-- What no step changes is the same after all steps. -/
theorem kept_of_foldlM {δ γ : Type} {step : δ → α → Except ε δ} (component : δ → γ) {xs : List α}
    (hstep : ∀ x ∈ xs, ∀ {d d'}, step d x = .ok d' → component d' = component d)
    {start result : δ} (h : xs.foldlM step start = .ok result) :
    component result = component start :=
  holds_of_foldlM (p := fun d => component d = component start)
    (fun x hx {_ _} hd hadd => (hstep x hx hadd).trans hd) rfl h

/-- Steps that all succeed on any draft succeed one after another. -/
theorem exists_foldlM_eq_ok {δ : Type} {step : δ → α → Except ε δ} {xs : List α}
    (hstep : ∀ x ∈ xs, ∀ d, ∃ d', step d x = .ok d') (start : δ) :
    ∃ result, xs.foldlM step start = .ok result := by
  induction xs generalizing start with
  | nil => exact ⟨start, rfl⟩
  | cons x rest ih =>
    obtain ⟨hfirst, hrest⟩ := List.forall_mem_cons.mp hstep
    obtain ⟨next, hnext⟩ := hfirst start
    obtain ⟨result, hresult⟩ := ih hrest next
    refine ⟨result, ?_⟩
    rw [List.foldlM_cons, hnext]
    exact hresult

/-- What is read from a part, or given without one, has a property that both bring. -/
theorem holds_of_elim_eq_ok {o : Option α} {f : α → Except ε β} {p : β → Prop} {absent b : β}
    (habsent : p absent) (hf : ∀ {a b}, o = some a → f a = .ok b → p b)
    (h : o.elim (.ok absent) f = .ok b) : p b := by
  cases o with
  | none =>
    obtain rfl := Except.ok.inj h
    exact habsent
  | some a => exact hf rfl h

/-- A component that is there was read from a part. -/
theorem exists_of_elim_eq_ok_some {o : Option α} {f : α → Except ε β} {b : β}
    (h : o.elim (.ok none) (fun a => (f a).map some) = .ok (some b)) :
    ∃ a, o = some a ∧ f a = .ok b := by
  cases o with
  | none => cases h
  | some a =>
    obtain ⟨c, hc, hb⟩ := exists_of_map_eq_ok h
    obtain rfl := Option.some.inj hb
    exact ⟨a, rfl, hc⟩

end

namespace Document

/-- The parts of a record by the names of its fields. -/
def RecordForm.namedParts {β : Type} (form : RecordForm) : Parts β → List (String × β)
  | .named members => members
  | .positional items => form.fields.zip items

/-- What a record is written with, by the names of its fields. -/
def RecordForm.written (form : RecordForm) (j : Json) : List (String × Json) :=
  (parts? j).elim [] form.namedParts

/-- What stands at a field of a record. -/
def RecordForm.field? (form : RecordForm) (name : String) (j : Json) : Option Json :=
  last? name (form.written j)

theorem RecordForm.exists_draft {α β δ : Type} {form : RecordForm} {empty : δ}
    {put : δ → String → β → Except ShapeFault δ} {finish : δ → Except String α} {parts : Parts β}
    {record : α} (h : form.read empty put finish parts = .ok record) :
    ∃ draft, (form.namedParts parts).foldlM (fun d (n, b) => put d n b) empty = .ok draft ∧
      finish draft = .ok record := by
  cases parts with
  | named members =>
    obtain ⟨draft, hdraft, h⟩ := exists_of_bind_eq_ok h
    refine ⟨draft, hdraft, ?_⟩
    cases hfinish : finish draft with
    | error field => simp [hfinish] at h
    | ok r =>
      simp only [hfinish] at h
      exact congrArg Except.ok (Except.ok.inj h)
  | positional items =>
    obtain ⟨draft, hdraft, h⟩ := exists_of_bind_eq_ok h
    refine ⟨draft, hdraft, ?_⟩
    cases hfinish : finish draft with
    | error field => simp [hfinish] at h
    | ok r =>
      simp only [hfinish] at h
      split at h
      · exact congrArg Except.ok (Except.ok.inj h)
      · cases h

theorem RecordForm.exists_draft_of_readJson {α δ : Type} {form : RecordForm} {empty : δ}
    {put : δ → String → Json → Except ShapeFault δ} {finish : δ → Except String α} {j : Json}
    {record : α} (h : form.readJson empty put finish j = .ok record) :
    ∃ draft, (form.written j).foldlM (fun d (n, b) => put d n b) empty = .ok draft ∧
      finish draft = .ok record := by
  unfold readJson at h
  unfold written
  cases hp : parts? j with
  | none => rw [hp] at h; cases h
  | some parts =>
    rw [hp] at h
    exact exists_draft h

theorem RecordForm.read_eq_ok {α β δ : Type} (form : RecordForm) {empty draft : δ}
    {put : δ → String → β → Except ShapeFault δ} {finish : δ → Except String α}
    {members : List (String × β)} {record : α}
    (h : members.foldlM (fun d (n, b) => put d n b) empty = .ok draft)
    (hfinish : finish draft = .ok record) :
    form.read empty put finish (.named members) = .ok record := by
  simp only [read, h, hfinish, bind, Except.bind, pure, Except.pure]

theorem TaggedForm.split_eq_ok {β : Type} (form : TaggedForm) {insideTagged : Bool}
    {json : β → Json} {members : List (String × β)} {tag : β} {index : Nat}
    (htag : Fields.get? form.tag members = some tag)
    (hindex : form.readTag insideTagged (json tag) = .ok index) :
    form.split insideTagged json (.named members) = .ok (index, .named members) := by
  simp only [split, htag, hindex, bind, Except.bind, pure, Except.pure]

theorem eq_string_of_readText {j : Json} {s : String} (h : readText j = .ok s) : j = .string s := by
  cases j with
  | string t => exact congrArg Json.string (Except.ok.inj h)
  | _ => cases h

end Document

end Questionnaire
