import Questionnaire.Walk

/-! Splitting at page breaks: nothing is lost, no page is empty, and neighbours stand on different
pages just where there are breaks between them. -/
namespace Questionnaire

/-- The number of the page on which the element at an index of all pages together stands. -/
def pageOf {α : Type} : List (List α) → Nat → Nat
  | [], _ => 0
  | page :: rest, index =>
    if index < page.length then 0 else pageOf rest (index - page.length) + 1

theorem pageOf_cons_of_lt {α : Type} {page : List α} {index : Nat} (h : index < page.length)
    (rest : List (List α)) : pageOf (page :: rest) index = 0 := by
  rw [pageOf, if_pos h]

theorem pageOf_append {α : Type} (before pages : List (List α)) (index : Nat) :
    pageOf (before ++ pages) (before.flatten.length + index) =
      before.length + pageOf pages index := by
  induction before with
  | nil => simp
  | cons page before ih =>
    have hle : ¬ (page :: before).flatten.length + index < page.length := by
      rw [List.flatten_cons, List.length_append]
      omega
    have hsub : (page :: before).flatten.length + index - page.length =
        before.flatten.length + index := by
      rw [List.flatten_cons, List.length_append]
      omega
    rw [List.cons_append, pageOf, if_neg hle, hsub, ih, List.length_cons]
    omega

namespace Item

/-- The page that is being filled, unless it is empty. -/
def lastPage (current : List Item) : List (List Item) := if current.isEmpty then [] else [current]

/-- The pages of items that come onto a page that is being filled. -/
def pagesFrom (current : List Item) : List Item → List (List Item)
  | [] => lastPage current
  | item :: rest =>
    if item.isPageBreak then lastPage current ++ pagesFrom [] rest
    else pagesFrom (current ++ [item]) rest

theorem PagesSoFar.close_eq (pages : PagesSoFar) :
    pages.close = ⟨pages.complete ++ lastPage pages.current, []⟩ := by
  obtain ⟨complete, current⟩ := pages
  cases current <;> simp [close, lastPage]

theorem complete_foldl_add (items : List Item) (pages : PagesSoFar) :
    (items.foldl PagesSoFar.add pages).close.complete =
      pages.complete ++ pagesFrom pages.current items := by
  induction items generalizing pages with
  | nil => rw [List.foldl_nil, PagesSoFar.close_eq, pagesFrom]
  | cons item rest ih =>
    rw [List.foldl_cons, ih, pagesFrom, PagesSoFar.add]
    split
    · rw [PagesSoFar.close_eq, List.append_assoc]
    · rfl

theorem split_eq (items : List Item) : split items = pagesFrom [] items := by
  rw [split, complete_foldl_add, List.nil_append]

theorem flatten_lastPage (current : List Item) : (lastPage current).flatten = current := by
  cases current <;> simp [lastPage]

theorem flatten_pagesFrom (current items : List Item) :
    (pagesFrom current items).flatten = current ++ items.filter fun item => !item.isPageBreak := by
  induction items generalizing current with
  | nil => rw [pagesFrom, flatten_lastPage, List.filter_nil, List.append_nil]
  | cons item rest ih =>
    unfold pagesFrom
    split
    · next h => rw [List.flatten_append, flatten_lastPage, ih, List.nil_append,
        List.filter_cons_of_neg (by simp [h])]
    · next h => rw [ih, List.filter_cons_of_pos (by simp [h]), List.append_assoc,
        List.singleton_append]

theorem ne_nil_of_mem_lastPage {current page : List Item} (h : page ∈ lastPage current) :
    page ≠ [] := by
  cases current with
  | nil => simp [lastPage] at h
  | cons item rest =>
    obtain rfl : page = item :: rest := by simpa [lastPage] using h
    exact List.cons_ne_nil _ _

theorem ne_nil_of_mem_pagesFrom {current items page : List Item}
    (h : page ∈ pagesFrom current items) : page ≠ [] := by
  induction items generalizing current with
  | nil => exact ne_nil_of_mem_lastPage h
  | cons item rest ih =>
    unfold pagesFrom at h
    split at h
    · rcases List.mem_append.mp h with h | h
      · exact ne_nil_of_mem_lastPage h
      · exact ih h
    · exact ih h

/-- Where an item stands that is not a break: after complete pages and the rest of its own. -/
theorem pagesFrom_append_cons (current before after : List Item) {item : Item}
    (h : item.isPageBreak = false) :
    ∃ complete page,
      complete.flatten ++ page = current ++ before.filter (fun x => !x.isPageBreak) ∧
      pagesFrom current (before ++ item :: after) =
        complete ++ pagesFrom (page ++ [item]) after := by
  induction before generalizing current with
  | nil => exact ⟨[], current, by simp, by simp [pagesFrom, h]⟩
  | cons x before ih =>
    by_cases hx : x.isPageBreak
    · obtain ⟨complete, page, hflat, hpages⟩ := ih []
      refine ⟨lastPage current ++ complete, page, ?_, ?_⟩
      · rw [List.flatten_append, flatten_lastPage, List.append_assoc, hflat,
          List.filter_cons_of_neg (by simp [hx]), List.nil_append]
      · rw [List.cons_append, pagesFrom, if_pos hx, hpages, List.append_assoc]
    · obtain ⟨complete, page, hflat, hpages⟩ := ih (current ++ [x])
      refine ⟨complete, page, ?_, ?_⟩
      · rw [hflat, List.filter_cons_of_pos (by simp [hx]), List.append_assoc, List.singleton_append]
      · rw [List.cons_append, pagesFrom, if_neg hx, hpages]

/-- A page that has items is the first to be complete. -/
theorem pagesFrom_of_ne_nil {current : List Item} (hc : current ≠ []) (items : List Item) :
    ∃ more rest, pagesFrom current items = (current ++ more) :: rest := by
  induction items generalizing current with
  | nil =>
    refine ⟨[], [], ?_⟩
    rw [pagesFrom, lastPage, if_neg (by simpa using hc), List.append_nil]
  | cons item items ih =>
    unfold pagesFrom
    split
    · refine ⟨[], pagesFrom [] items, ?_⟩
      rw [lastPage, if_neg (by simpa using hc), List.append_nil, List.singleton_append]
    · obtain ⟨more, rest, h⟩ := ih (show current ++ [item] ≠ [] by simp)
      exact ⟨item :: more, rest, by rw [h, List.append_assoc, List.singleton_append]⟩

/-- Breaks at the top of an empty page have no effect. -/
theorem pagesFrom_breaks {breaks : List Item} (hb : ∀ x ∈ breaks, x.isPageBreak)
    (items : List Item) : pagesFrom [] (breaks ++ items) = pagesFrom [] items := by
  induction breaks with
  | nil => rfl
  | cons x breaks ih =>
    rw [List.cons_append, pagesFrom, if_pos (hb x List.mem_cons_self)]
    exact ih fun y hy => hb y (List.mem_cons_of_mem x hy)

/-- Two items with only breaks between them stand on different pages if there is a break. -/
theorem pageOf_split_ne_iff (before breaks after : List Item) {a b : Item}
    (ha : a.isPageBreak = false) (hb : b.isPageBreak = false)
    (hbreaks : ∀ x ∈ breaks, x.isPageBreak) {index : Nat}
    (hi : (before.filter fun x => !x.isPageBreak).length = index) :
    pageOf (split (before ++ a :: (breaks ++ b :: after))) index ≠
        pageOf (split (before ++ a :: (breaks ++ b :: after))) (index + 1) ↔ breaks ≠ [] := by
  obtain ⟨complete, page, hflat, hpages⟩ :=
    pagesFrom_append_cons [] before (breaks ++ b :: after) ha
  have hindex : index = complete.flatten.length + page.length := by
    rw [← hi, ← List.length_append, hflat, List.nil_append]
  rw [split_eq, hpages, hindex, Nat.add_assoc, pageOf_append, pageOf_append]
  -- Both indices now count from the start of the page that the first item stands on.
  cases breaks with
  | nil =>
    obtain ⟨more, rest, hmore⟩ :=
      pagesFrom_of_ne_nil (show page ++ [a] ++ [b] ≠ [] by simp) after
    rw [List.nil_append, pagesFrom, if_neg (by simp [hb]), hmore,
      pageOf_cons_of_lt (by simp only [List.length_append, List.length_singleton]; omega),
      pageOf_cons_of_lt (by simp only [List.length_append, List.length_singleton]; omega)]
    simp
  | cons x breaks =>
    have hx : x.isPageBreak := hbreaks x List.mem_cons_self
    have hempty : ∀ y ∈ breaks, y.isPageBreak := fun y hy => hbreaks y (List.mem_cons_of_mem x hy)
    have hlast : lastPage (page ++ [a]) = [page ++ [a]] := by simp [lastPage]
    have hlen : ¬ page.length + 1 < (page ++ [a]).length := by simp
    rw [List.cons_append, pagesFrom, if_pos hx, pagesFrom_breaks hempty, hlast,
      List.singleton_append, pageOf_cons_of_lt (by simp), pageOf, if_neg hlen]
    simp only [ne_eq, reduceCtorEq, not_false_eq_true, iff_true]
    omega

end Item

end Questionnaire
