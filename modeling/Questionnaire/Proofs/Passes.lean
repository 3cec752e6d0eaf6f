import Questionnaire.Proofs.Pages
import Questionnaire.Proofs.Shown
import Questionnaire.Survey

/-! The list of visible questions, their pages and the validation report: three walks, of which each
tells of the same items. -/
namespace Questionnaire
open Occurrence

section
variable {α : Type}

/-- Neighbours among the elements of a kind have only others between them. -/
theorem exists_of_neighbours {p : α → Bool} {xs : List α} {index : Nat} {a b : α}
    (ha : (xs.filter p)[index]? = some a) (hb : (xs.filter p)[index + 1]? = some b) :
    ∃ before between after, xs = before ++ a :: (between ++ b :: after) ∧
      (before.filter p).length = index ∧ p a ∧ p b ∧ ∀ x ∈ between, ¬ p x := by
  obtain ⟨hia, rfl⟩ := List.getElem?_eq_some_iff.mp ha
  obtain ⟨hib, rfl⟩ := List.getElem?_eq_some_iff.mp hb
  have hsplit : xs.filter p = (xs.filter p).take index ++
      (xs.filter p)[index] :: (xs.filter p)[index + 1] :: (xs.filter p).drop (index + 2) := by
    rw [List.getElem_cons_drop, List.getElem_cons_drop, List.take_append_drop]
  obtain ⟨first, rest, hxs, hfirst, hrest⟩ := List.filter_eq_append_iff.mp hsplit
  obtain ⟨skipped, tail, rfl, hskipped, hpa, htail⟩ := List.filter_eq_cons_iff.mp hrest
  obtain ⟨between, after, rfl, hbetween, hpb, -⟩ := List.filter_eq_cons_iff.mp htail
  refine ⟨first ++ skipped, between, after, by rw [List.append_assoc]; exact hxs, ?_, hpa, hpb,
    hbetween⟩
  have hnone : skipped.filter p = [] := List.filter_eq_nil_iff.mpr hskipped
  rw [List.filter_append, hfirst, hnone, List.append_nil, List.length_take]
  omega

end

namespace Item

/-- The walk that leaves nothing out. -/
def shown (ctx : Context) (seeder : Seeder) (root : Item) : Trail := root.trail ⟨ctx, seeder, .all⟩

theorem trail_scope (ctx : Context) (seeder : Seeder) (scope : Walk.Scope) (root : Item) :
    root.trail ⟨ctx, seeder, scope⟩ = (root.shown ctx seeder).keep scope := by
  rw [shown, trail_eq, trail_eq, trails_scope]

theorem mem_shown_iff {ctx : Context} {seeder : Seeder} {root : Item}
    (hf : (root.shown ctx seeder).failure = none) (o : Occurrence) :
    o ∈ (root.shown ctx seeder).passed ↔ Shown ctx seeder ⟨0, root⟩ o := by
  rw [shown, mem_passed_iff hf]
  exact and_iff_right (Walk.Scope.includes_all o.item)

theorem items_of_error {ctx : Context} {seeder : Seeder} {root : Item} {f : Occurrence × Error}
    (hf : (root.shown ctx seeder).failure = some f) (scope : Walk.Scope) :
    Walk.items ⟨ctx, seeder, scope⟩ root = .error f.2 := by
  rw [Walk.items_eq, trail_scope, Trail.result, Trail.keep, hf]

theorem items_of_none {ctx : Context} {seeder : Seeder} {root : Item}
    (hf : (root.shown ctx seeder).failure = none) (scope : Walk.Scope) :
    Walk.items ⟨ctx, seeder, scope⟩ root =
      .ok (((root.shown ctx seeder).passed.filter fun o => scope.includes o.item).map item) := by
  rw [Walk.items_eq, trail_scope, Trail.result, Trail.keep, hf]

theorem includes_questions (item : Item) :
    Walk.Scope.questions.includes item = item.isQuestion := by
  cases item <;> rfl

theorem includes_withGroups (item : Item) :
    Walk.Scope.withGroups.includes item = !item.isPageBreak := by
  cases item <;> rfl

theorem includes_withPageBreaks (item : Item) :
    Walk.Scope.withPageBreaks.includes item = !item.isGroup := by
  cases item <;> rfl

theorem not_pageBreak_and_not_group (item : Item) :
    (!item.isPageBreak && !item.isGroup) = item.isQuestion := by
  cases item <;> rfl

theorem isGroup_of_isPageBreak {item : Item} (h : item.isPageBreak) : item.isGroup = false := by
  cases item with
  | group => cases h
  | question => rfl
  | pageBreak => rfl

end Item

/-- All that is shown of a tree, in the order of the walk. -/
structure ListsShown (ctx : Context) (seeder : Seeder) (root : Item) (shown : List Occurrence) :
    Prop where
  mem_iff : ∀ o, o ∈ shown ↔ Shown ctx seeder ⟨0, root⟩ o
  ordered : shown.Pairwise fun a b => a.position < b.position

/-- What the three passes tell of the items that are shown, which come in the order of the walk:
questions, pages without empty ones that part where a break is shown, and outcomes of rules. -/
structure TellsOf (ctx : Context) (shown : List Occurrence) (questions : List Item)
    (pages : List (List Item)) (report : Report) : Prop where
  questions_eq : questions = (shown.filter (·.item.isQuestion)).map item
  flatten_pages : pages.flatten = questions
  pages_ne_nil : ∀ page ∈ pages, page ≠ []
  parted_iff : ∀ index a b, (shown.filter (·.item.isQuestion))[index]? = some a →
    (shown.filter (·.item.isQuestion))[index + 1]? = some b →
    (pageOf pages index ≠ pageOf pages (index + 1) ↔
      ∃ o ∈ shown, o.item.isPageBreak ∧ a.position < o.position ∧ o.position < b.position)
  report_eq : report.items =
    (shown.filter fun o => !o.item.isPageBreak && !o.item.rules.isEmpty).map fun o =>
      ⟨o.item.key, o.item.rules.map (Rule.outcome ctx)⟩

/-- Between two of a list in order, there is just what stands between them in the list. -/
theorem mem_between_iff {before between after : List Occurrence} {a b : Occurrence}
    (hord : (before ++ a :: (between ++ b :: after)).Pairwise fun x y => x.position < y.position)
    (o : Occurrence) :
    (o ∈ before ++ a :: (between ++ b :: after) ∧ a.position < o.position ∧
      o.position < b.position) ↔ o ∈ between := by
  obtain ⟨-, hright, hbefore⟩ := List.pairwise_append.mp hord
  obtain ⟨ha_lt, hrest⟩ := List.pairwise_cons.mp hright
  obtain ⟨-, hafter, hbetween⟩ := List.pairwise_append.mp hrest
  obtain ⟨hb_lt, -⟩ := List.pairwise_cons.mp hafter
  constructor
  · rintro ⟨ho, hlo, hhi⟩
    rcases List.mem_append.mp ho with ho | ho
    · have := hbefore o ho a List.mem_cons_self
      omega
    · rcases List.mem_cons.mp ho with rfl | ho
      · omega
      · rcases List.mem_append.mp ho with ho | ho
        · exact ho
        · rcases List.mem_cons.mp ho with rfl | ho
          · omega
          · have := hb_lt o ho
            omega
  · intro ho
    exact ⟨by simp [ho], ha_lt o (List.mem_append_left _ ho), hbetween o ho b List.mem_cons_self⟩

/-- Shown questions that are neighbours stand on different pages if a break is shown between
them. -/
theorem parted_of_pairwise {shown : List Occurrence}
    (hord : shown.Pairwise fun a b => a.position < b.position) {index : Nat} {a b : Occurrence}
    (ha : (shown.filter (·.item.isQuestion))[index]? = some a)
    (hb : (shown.filter (·.item.isQuestion))[index + 1]? = some b) :
    pageOf (Item.split ((shown.filter fun o => !o.item.isGroup).map item)) index ≠
        pageOf (Item.split ((shown.filter fun o => !o.item.isGroup).map item)) (index + 1) ↔
      ∃ o ∈ shown, o.item.isPageBreak ∧ a.position < o.position ∧ o.position < b.position := by
  have hfilter : shown.filter (·.item.isQuestion) =
      (shown.filter fun o => !o.item.isGroup).filter fun o => !o.item.isPageBreak := by
    rw [List.filter_filter]
    simp only [Item.not_pageBreak_and_not_group]
  rw [hfilter] at ha hb
  -- Of what is walked besides groups, only breaks stand between the two.
  obtain ⟨before, between, after, hys, hlen, hpa, hpb, hbetween⟩ := exists_of_neighbours ha hb
  have hmem : ∀ o, o ∈ shown ∧ o.item.isGroup = false ↔
      o ∈ before ++ a :: (between ++ b :: after) := by
    intro o
    rw [← hys, List.mem_filter]
    simp
  have hord' := hord.filter fun o => !o.item.isGroup
  rw [hys] at hord' ⊢
  have hlen' : ((before.map item).filter fun x => !x.isPageBreak).length = index := by
    rw [List.filter_map, List.length_map, ← hlen]
    rfl
  have hbreaks : ∀ x ∈ between.map item, x.isPageBreak := by
    intro x hx
    obtain ⟨o, ho, rfl⟩ := List.mem_map.mp hx
    simpa using hbetween o ho
  have hsplit := Item.pageOf_split_ne_iff (before.map item) (between.map item) (after.map item)
    (by simpa using hpa) (by simpa using hpb) hbreaks hlen'
  simp only [List.map_append, List.map_cons]
  rw [hsplit]
  constructor
  · intro hne
    obtain ⟨o, ho⟩ := List.exists_mem_of_ne_nil between (by simpa using hne)
    obtain ⟨hin, hlo, hhi⟩ := (mem_between_iff hord' o).mpr ho
    exact ⟨o, ((hmem o).mpr hin).1, by simpa using hbetween o ho, hlo, hhi⟩
  · rintro ⟨o, hin, hbreak, hlo, hhi⟩ hnil
    have hgroup : o.item.isGroup = false := Item.isGroup_of_isPageBreak hbreak
    have ho := (mem_between_iff hord' o).mp ⟨(hmem o).mp ⟨hin, hgroup⟩, hlo, hhi⟩
    rw [List.map_eq_nil_iff.mp hnil] at ho
    cases ho

theorem tellsOf_of_pairwise (ctx : Context) {shown : List Occurrence}
    (hord : shown.Pairwise fun a b => a.position < b.position) :
    TellsOf ctx shown ((shown.filter fun o => o.item.isQuestion).map item)
      (Item.split ((shown.filter fun o => !o.item.isGroup).map item))
      (.ofItems ctx ((shown.filter fun o => !o.item.isPageBreak).map item)) := by
  constructor
  case questions_eq => rfl
  case flatten_pages =>
    rw [Item.split_eq, Item.flatten_pagesFrom, List.nil_append, List.filter_map, List.filter_filter]
    simp only [Function.comp_apply, Item.not_pageBreak_and_not_group]
  case pages_ne_nil =>
    intro page hpage
    rw [Item.split_eq] at hpage
    exact Item.ne_nil_of_mem_pagesFrom hpage
  case parted_iff => exact fun index a b ha hb => parted_of_pairwise hord ha hb
  case report_eq =>
    rw [Report.ofItems, List.filter_map, List.filter_filter, List.map_map]
    simp only [Function.comp_apply, Bool.and_comm]
    rfl

namespace Item

/-- Either all passes fail alike or each tells of the items that are shown. -/
theorem passes (ctx : Context) (seeder : Seeder) (root : Item) :
    (∃ e, root.flatten ctx seeder = .error e ∧ root.pages ctx seeder = .error e ∧
      root.validateVisible ctx seeder = .error e) ∨
    ∃ shown questions pages report,
      root.flatten ctx seeder = .ok questions ∧ root.pages ctx seeder = .ok pages ∧
      root.validateVisible ctx seeder = .ok report ∧
      ListsShown ctx seeder root shown ∧ TellsOf ctx shown questions pages report := by
  cases hf : (root.shown ctx seeder).failure with
  | some f =>
    refine .inl ⟨f.2, items_of_error hf _, ?_, ?_⟩
    · rw [pages, items_of_error hf]
      rfl
    · rw [validateVisible, items_of_error hf]
      rfl
  | none =>
    have hord := passed_pairwise ⟨ctx, seeder, .all⟩ root
    have hquestions := items_of_none hf .questions
    have hpages := items_of_none hf .withPageBreaks
    have hgroups := items_of_none hf .withGroups
    simp only [includes_questions] at hquestions
    simp only [includes_withPageBreaks] at hpages
    simp only [includes_withGroups] at hgroups
    refine .inr ⟨_, _, _, _, hquestions, ?_, ?_, ⟨mem_shown_iff hf, hord⟩,
      tellsOf_of_pairwise ctx hord⟩
    · rw [pages, hpages]
      rfl
    · rw [validateVisible, hgroups]
      rfl

end Item

namespace Survey

theorem evaluateJson_of_ok {survey responses : Json} {seed : Option UInt64} {now : Int64}
    {s : Survey} {ctx : Context} (hs : ofJson survey = .ok s)
    (hctx : Context.ofJson responses now = .ok ctx) :
    evaluateJson survey responses seed now = s.evaluate ctx (.ofOption seed) := by
  rw [evaluateJson, hs]
  change (Context.ofJson responses now >>= fun ctx => s.evaluate ctx (.ofOption seed)) = _
  rw [hctx]
  rfl

theorem evaluate_of_ok {s : Survey} {ctx : Context} {seeder : Seeder} {questions : List Item}
    {pages : List (List Item)} {report : Report} (hq : s.root.flatten ctx seeder = .ok questions)
    (hp : s.root.pages ctx seeder = .ok pages)
    (hr : s.root.validateVisible ctx seeder = .ok report) :
    s.evaluate ctx seeder =
      .ok ⟨questions.map Item.key, pages.map (·.map Item.key), report⟩ := by
  simp only [evaluate, hq, hp, hr]
  rfl

/-- Three passes over one tree all fail with one error, or they tell of one and the same set of
items. So do the fields of the evaluation of two documents. -/
theorem passes_tell_of_one_set :
    (∀ (ctx : Context) (seeder : Seeder) (root : Item),
      (∃ e, root.flatten ctx seeder = .error e ∧ root.pages ctx seeder = .error e ∧
        root.validateVisible ctx seeder = .error e) ∨
      ∃ shown questions pages report,
        root.flatten ctx seeder = .ok questions ∧ root.pages ctx seeder = .ok pages ∧
        root.validateVisible ctx seeder = .ok report ∧
        ListsShown ctx seeder root shown ∧ TellsOf ctx shown questions pages report) ∧
    ∀ (survey responses : Json) (seed : Option UInt64) (now : Int64) (s : Survey) (ctx : Context),
      ofJson survey = .ok s → Context.ofJson responses now = .ok ctx →
      (∃ e, evaluateJson survey responses seed now = .error e ∧
        s.root.flatten ctx (.ofOption seed) = .error e) ∨
      ∃ evaluation shown questions pages,
        evaluateJson survey responses seed now = .ok evaluation ∧
        ListsShown ctx (.ofOption seed) s.root shown ∧
        TellsOf ctx shown questions pages evaluation.validation ∧
        evaluation.visible = questions.map Item.key ∧
        evaluation.pages = pages.map (·.map Item.key) := by
  refine ⟨Item.passes, ?_⟩
  intro survey responses seed now s ctx hs hctx
  rw [evaluateJson_of_ok hs hctx]
  rcases s.root.passes ctx (.ofOption seed) with
    ⟨e, hq, -, -⟩ | ⟨shown, questions, pages, report, hq, hp, hr, hshown, htells⟩
  · refine .inl ⟨e, ?_, hq⟩
    rw [evaluate, hq]
    rfl
  · exact .inr ⟨_, shown, questions, pages, evaluate_of_ok hq hp hr, hshown, htells, rfl, rfl⟩

/-- Two questions, the first with a rule, and a page break between them. -/
def spread : Survey :=
  ⟨"s", .group ⟨"g", 0, none, []⟩ .sequential
    [.question ⟨"a", 0, none, [⟨"r", .soft, .literal (.bool true)⟩]⟩ .text [],
      .pageBreak "p" none, .question ⟨"b", 0, none, []⟩ .text []]⟩

/-- The document of the same survey. -/
def spreadDocument : Json :=
  .object [("id", .string "s"), ("root", .object [
    ("items", .array [
      .object [("key", .string "a"), ("kind", .string "question"), ("role", .string "text"),
        ("validations", .array [.object [("key", .string "r"), ("rule", .bool true),
          ("severity", .string "soft")]])],
      .object [("key", .string "p"), ("kind", .string "pageBreak")],
      .object [("key", .string "b"), ("kind", .string "question"), ("role", .string "text")]]),
    ("key", .string "g"), ("kind", .string "group")])]

theorem shown_spread (seeder : Seeder) :
    spread.root.shown (.empty 0) seeder =
      ⟨[⟨0, spread.root⟩, ⟨1, spread.root.children[0]⟩, ⟨2, spread.root.children[1]⟩,
        ⟨3, spread.root.children[2]⟩], none⟩ := by
  have hchosen : (⟨0, spread.root⟩ : Occurrence).chosen (.empty 0) seeder =
      [⟨1, spread.root.children[0]⟩, ⟨2, spread.root.children[1]⟩,
        ⟨3, spread.root.children[2]⟩] := rfl
  have hfirst : trail ⟨.empty 0, seeder, .all⟩ ⟨1, spread.root.children[0]⟩ = .one _ :=
    trail_of_not_isGroup _ rfl (by decide)
  have hbreak : trail ⟨.empty 0, seeder, .all⟩ ⟨2, spread.root.children[1]⟩ = .one _ :=
    trail_of_not_isGroup _ rfl (by decide)
  have hsecond : trail ⟨.empty 0, seeder, .all⟩ ⟨3, spread.root.children[2]⟩ = .one _ :=
    trail_of_not_isGroup _ rfl (by decide)
  rw [Item.shown, Item.trail, trail_of_visible _ rfl, hchosen]
  simp only [trails_cons, trails_nil, hfirst, hbreak, hsecond]
  rfl

theorem passes_spread (seeder : Seeder) :
    spread.root.flatten (.empty 0) seeder =
        .ok [spread.root.children[0], spread.root.children[2]] ∧
      spread.root.pages (.empty 0) seeder =
        .ok [[spread.root.children[0]], [spread.root.children[2]]] ∧
      spread.root.validateVisible (.empty 0) seeder =
        .ok ⟨[⟨"a", [⟨"r", .soft, .passed⟩]⟩]⟩ := by
  have hfine : (spread.root.shown (.empty 0) seeder).failure = none := by rw [shown_spread]
  refine ⟨?_, ?_, ?_⟩
  · rw [Item.flatten, Item.items_of_none hfine, shown_spread]
    rfl
  · rw [Item.pages, Item.items_of_none hfine, shown_spread]
    rfl
  · rw [Item.validateVisible, Item.items_of_none hfine, shown_spread]
    rfl

/-- Both questions are listed, each on a page of its own, with the one break shown between them, and
the rule is reported. So it is of the document. -/
theorem spread_told :
    (∃ shown, ListsShown (.empty 0) .digest spread.root shown ∧
      TellsOf (.empty 0) shown [spread.root.children[0], spread.root.children[2]]
        [[spread.root.children[0]], [spread.root.children[2]]]
        ⟨[⟨"a", [⟨"r", .soft, .passed⟩]⟩]⟩) ∧
    ∃ evaluation shown questions pages,
      evaluateJson spreadDocument (.object []) (some 0) 0 = .ok evaluation ∧
      evaluation = ⟨["a", "b"], [["a"], ["b"]], ⟨[⟨"a", [⟨"r", .soft, .passed⟩]⟩]⟩⟩ ∧
      ListsShown (.empty 0) (.fixed 0) spread.root shown ∧
      TellsOf (.empty 0) shown questions pages evaluation.validation := by
  constructor
  · rcases passes_tell_of_one_set.1 (.empty 0) .digest spread.root with
      ⟨e, hq, -, -⟩ | ⟨shown, questions, pages, report, hq, hp, hr, hlists, htells⟩
    · cases (passes_spread .digest).1.symm.trans hq
    · cases (passes_spread .digest).1.symm.trans hq
      cases (passes_spread .digest).2.1.symm.trans hp
      cases (passes_spread .digest).2.2.symm.trans hr
      exact ⟨shown, hlists, htells⟩
  · have hdocument : ofJson spreadDocument = .ok spread := rfl
    have hcontext : Context.ofJson (.object []) 0 = .ok (.empty 0) := rfl
    obtain ⟨hq, hp, hr⟩ := passes_spread (.fixed 0)
    have hevaluated : evaluateJson spreadDocument (.object []) (some 0) 0 = .ok _ :=
      (evaluateJson_of_ok hdocument hcontext).trans (evaluate_of_ok hq hp hr)
    rcases passes_tell_of_one_set.2 spreadDocument (.object []) (some 0) 0 spread (.empty 0)
        hdocument hcontext with
      ⟨e, he, -⟩ | ⟨evaluation, shown, questions, pages, he, hlists, htells, -, -⟩
    · cases hevaluated.symm.trans he
    · exact ⟨evaluation, shown, questions, pages, he,
        (Except.ok.inj (hevaluated.symm.trans he)).symm, hlists, htells⟩

end Survey

end Questionnaire
