import Questionnaire.Seeder

/-! Items with their places in the order of definition. -/
namespace Questionnaire

namespace Item

theorem preorder_eq (item : Item) : item.preorder = item :: preorders item.children := by
  cases item <;> simp [preorder, preorders, children]

theorem preorders_append (xs ys : List Item) :
    preorders (xs ++ ys) = preorders xs ++ preorders ys := by
  induction xs with
  | nil => simp [preorders]
  | cons x xs ih => simp [preorders, ih]

theorem unfold_eq (stack : List Item) : unfold stack = preorders stack := by
  induction stack using unfold.induct with
  | case1 => simp [unfold, preorders]
  | case2 item stack ih =>
    rw [unfold, ih, preorders_append, preorders, preorder_eq, List.cons_append]

/-- The stack lists a tree in the order of definition. -/
theorem descendants_eq (root : Item) : root.descendants = root.preorder := by
  rw [descendants, unfold_eq, preorders, preorders, List.append_nil]

def size (item : Item) : Nat := item.preorder.length

theorem size_eq (item : Item) : item.size = (preorders item.children).length + 1 := by
  rw [size, preorder_eq, List.length_cons]

/-- What a group presents of a list that has one element for each of its children. -/
def pick {α : Type} (ctx : Context) (seeder : Seeder) (item : Item) (xs : List α) : List α :=
  match item with
  | group header (.randomSubset count) items =>
    if items.length ≤ count then xs
    else keepAt (Sample.positions (ChaCha.word (ChaCha.keyOfSeed (seeder ctx header.key)))
      items.length count) 0 xs
  | _ => xs

theorem pick_children (ctx : Context) (seeder : Seeder) (item : Item) :
    item.pick ctx seeder item.children = item.chosen ctx seeder := by
  cases item with
  | group header selection items => cases selection <;> rfl
  | question => rfl
  | pageBreak => rfl

end Item

section
variable {α β : Type}

theorem keepAt_map (f : α → β) (positions : List Nat) (start : Nat) (xs : List α) :
    keepAt positions start (xs.map f) = (keepAt positions start xs).map f := by
  induction xs generalizing start with
  | nil => rfl
  | cons x xs ih =>
    simp only [List.map_cons, keepAt, ih]
    split <;> rfl

theorem keepAt_sublist (positions : List Nat) (start : Nat) (xs : List α) :
    (keepAt positions start xs).Sublist xs := by
  induction xs generalizing start with
  | nil => exact List.Sublist.slnil
  | cons x xs ih =>
    unfold keepAt
    split
    · exact (ih (start + 1)).cons_cons x
    · exact (ih (start + 1)).cons x

theorem Item.pick_map (f : α → β) (ctx : Context) (seeder : Seeder) (item : Item) (xs : List α) :
    item.pick ctx seeder (xs.map f) = (item.pick ctx seeder xs).map f := by
  unfold pick
  split
  · split
    · rfl
    · exact keepAt_map f _ 0 xs
  · rfl

theorem Item.pick_sublist (ctx : Context) (seeder : Seeder) (item : Item) (xs : List α) :
    (item.pick ctx seeder xs).Sublist xs := by
  unfold pick
  split
  · split
    · exact List.Sublist.refl xs
    · exact keepAt_sublist _ 0 xs
  · exact List.Sublist.refl xs

end

/-- An item with its position in the order of definition of the tree that it belongs to. -/
structure Occurrence where
  position : Nat
  item : Item

namespace Occurrence

/-- The position after all that stands beneath an item. -/
def stop (o : Occurrence) : Nat := o.position + o.item.size

/-- The places of items that follow one another with all that stands beneath them. -/
def place (start : Nat) : List Item → List Occurrence
  | [] => []
  | item :: rest => ⟨start, item⟩ :: place (start + item.size) rest

/-- The children, of which the first comes right after its parent. -/
def children (o : Occurrence) : List Occurrence := place (o.position + 1) o.item.children

/-- The children that a group presents, at their places. -/
def chosen (ctx : Context) (seeder : Seeder) (o : Occurrence) : List Occurrence :=
  o.item.pick ctx seeder o.children

@[simp] theorem place_map_item (start : Nat) (items : List Item) :
    (place start items).map item = items := by
  induction items generalizing start with
  | nil => rfl
  | cons x rest ih => simp [place, ih]

@[simp] theorem chosen_map_item (ctx : Context) (seeder : Seeder) (o : Occurrence) :
    (o.chosen ctx seeder).map item = o.item.chosen ctx seeder := by
  rw [chosen, ← Item.pick_map, children, place_map_item, Item.pick_children]

theorem mem_children_of_mem_chosen {ctx : Context} {seeder : Seeder} {o c : Occurrence}
    (hc : c ∈ o.chosen ctx seeder) : c ∈ o.children :=
  (Item.pick_sublist ctx seeder o.item o.children).mem hc

theorem le_position_of_mem_place {start : Nat} {items : List Item} {o : Occurrence}
    (ho : o ∈ place start items) : start ≤ o.position := by
  induction items generalizing start with
  | nil => simp [place] at ho
  | cons x rest ih =>
    rcases List.mem_cons.mp ho with rfl | ho
    · exact Nat.le_refl start
    · have := ih ho
      omega

theorem stop_le_of_mem_place {start : Nat} {items : List Item} {o : Occurrence}
    (ho : o ∈ place start items) : o.stop ≤ start + (Item.preorders items).length := by
  induction items generalizing start with
  | nil => simp [place] at ho
  | cons x rest ih =>
    rw [Item.preorders, List.length_append]
    rcases List.mem_cons.mp ho with rfl | ho
    · simp only [stop, Item.size]
      omega
    · have := ih ho
      simp only [Item.size] at this
      omega

theorem position_lt_of_mem_children {o c : Occurrence} (hc : c ∈ o.children) :
    o.position < c.position :=
  le_position_of_mem_place hc

theorem stop_le_of_mem_children {o c : Occurrence} (hc : c ∈ o.children) : c.stop ≤ o.stop := by
  have h := stop_le_of_mem_place hc
  have hs := o.item.size_eq
  rw [stop.eq_def o]
  omega

/-- Occurrences that follow one another: each comes after all that stands beneath the ones before
it. -/
def Apart (os : List Occurrence) : Prop := os.Pairwise fun a b => a.stop ≤ b.position

theorem apart_place (start : Nat) (items : List Item) : Apart (place start items) := by
  induction items generalizing start with
  | nil => exact List.Pairwise.nil
  | cons x rest ih => exact List.Pairwise.cons (fun o ho => le_position_of_mem_place ho) (ih _)

theorem apart_chosen (ctx : Context) (seeder : Seeder) (o : Occurrence) :
    Apart (o.chosen ctx seeder) :=
  (apart_place _ _).sublist (Item.pick_sublist ctx seeder o.item o.children)

/-- An occurrence stands in a tree when the tree has it and all beneath it at its position. -/
def In (root : Item) (o : Occurrence) : Prop := o.item.preorder <+: root.descendants.drop o.position

theorem in_root (root : Item) : In root ⟨0, root⟩ := by
  rw [In, Item.descendants_eq]
  exact List.prefix_refl _

theorem prefix_drop_of_mem_place {start : Nat} {items : List Item} {o : Occurrence}
    (ho : o ∈ place start items) :
    o.item.preorder <+: (Item.preorders items).drop (o.position - start) := by
  induction items generalizing start with
  | nil => simp [place] at ho
  | cons x rest ih =>
    rw [Item.preorders]
    rcases List.mem_cons.mp ho with rfl | ho
    · simp
    · have hle := le_position_of_mem_place ho
      have hsplit : o.position - start = x.preorder.length + (o.position - (start + x.size)) := by
        simp only [Item.size] at hle ⊢
        omega
      rw [hsplit, List.drop_length_add_append]
      exact ih ho

theorem In.child {root : Item} {o c : Occurrence} (ho : In root o) (hc : c ∈ o.children) :
    In root c := by
  have hlt := position_lt_of_mem_children hc
  have hp := prefix_drop_of_mem_place hc
  obtain ⟨after, hafter⟩ := ho
  have hdrop : root.descendants.drop c.position =
      (Item.preorders o.item.children).drop (c.position - (o.position + 1)) ++
        after.drop (c.position - (o.position + 1) - (Item.preorders o.item.children).length) := by
    have hsum : c.position = o.position + ((c.position - (o.position + 1)) + 1) := by omega
    rw [hsum, ← List.drop_drop, ← hafter, Item.preorder_eq, List.cons_append, List.drop_succ_cons,
      List.drop_append]
    congr 2 <;> omega
  rw [In, hdrop]
  exact hp.trans (List.prefix_append _ _)

theorem In.getElem? {root : Item} {o : Occurrence} (ho : In root o) :
    root.descendants[o.position]? = some o.item := by
  obtain ⟨after, hafter⟩ := ho
  have h : (root.descendants.drop o.position)[0]? = some o.item := by
    rw [← hafter, Item.preorder_eq]
    rfl
  simpa using h

end Occurrence

def Item.occurrences (root : Item) : List Occurrence :=
  root.descendants.zipIdx.map fun (item, position) => ⟨position, item⟩

theorem Item.mem_occurrences_iff {root : Item} {o : Occurrence} :
    o ∈ root.occurrences ↔ root.descendants[o.position]? = some o.item := by
  rw [occurrences, List.mem_map]
  constructor
  · rintro ⟨⟨item, position⟩, h, rfl⟩
    exact List.mem_zipIdx_iff_getElem?.mp h
  · intro h
    exact ⟨(o.item, o.position), List.mem_zipIdx_iff_getElem?.mpr h, rfl⟩

theorem Occurrence.In.mem_occurrences {root : Item} {o : Occurrence} (ho : o.In root) :
    o ∈ root.occurrences :=
  Item.mem_occurrences_iff.mpr ho.getElem?

/-- The position tells which occurrence it is. -/
theorem Item.eq_of_mem_occurrences {root : Item} {a b : Occurrence} (ha : a ∈ root.occurrences)
    (hb : b ∈ root.occurrences) (h : a.position = b.position) : a = b := by
  have hi : some a.item = some b.item := by
    rw [← mem_occurrences_iff.mp ha, ← mem_occurrences_iff.mp hb, h]
  obtain ⟨p, x⟩ := a
  obtain ⟨q, y⟩ := b
  cases h
  cases hi
  rfl

end Questionnaire
