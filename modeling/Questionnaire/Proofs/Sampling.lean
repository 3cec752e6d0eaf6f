import Mathlib.Data.List.Perm.Basic
import Questionnaire.Random.Sample

/-! Sampling: on every stream of words on which they end, both loops give as many distinct positions
as asked for. -/
namespace Questionnaire.Sample
open scoped List

/-- What comes of a range and a position of a stream: a number and the position after it. -/
abbrev Drawing := Nat → Nat → Nat → Nat → Prop

/-- Numbers lie in their range. -/
def Drawing.Bounded (drawing : Drawing) : Prop :=
  ∀ range position number next, 0 < range → drawing range position number next → number < range

/-- Whether the word at a position is taken. -/
def Taken (words : Words) (range position : Nat) : Prop :=
  (words position).toNat * range % UInt32.size ≤ zone range

instance (words : Words) (range position : Nat) : Decidable (Taken words range position) :=
  inferInstanceAs (Decidable (_ ≤ _))

/-- The number that a word gives. -/
def number (words : Words) (range position : Nat) : Nat :=
  (words position).toNat * range / UInt32.size

theorem number_lt (words : Words) {range : Nat} (h : 0 < range) (position : Nat) :
    number words range position < range := by
  refine Nat.div_lt_of_lt_mul ?_
  exact Nat.mul_lt_mul_of_pos_right (words position).toNat_lt_size h

/-- Words are drawn until one is taken. -/
inductive Redrawn (words : Words) : Drawing
  | taken {range position : Nat} (h : Taken words range position) :
      Redrawn words range position (number words range position) (position + 1)
  | again {range position n next : Nat} (h : ¬ Taken words range position)
      (rest : Redrawn words range (position + 1) n next) : Redrawn words range position n next

/-- Words are drawn until one is taken or the attempts are used up. -/
def Drawn (words : Words) : Drawing := fun range position n next =>
  draw words range attempts position = (n, next)

theorem bounded_redrawn (words : Words) : (Redrawn words).Bounded := by
  intro range position n next hrange h
  induction h with
  | taken => exact number_lt words hrange _
  | again _ _ ih => exact ih hrange

theorem draw_lt (words : Words) {range : Nat} (h : 0 < range) (attempts position : Nat) :
    (draw words range attempts position).1 < range := by
  induction attempts generalizing position with
  | zero => exact number_lt words h position
  | succ attempts ih =>
    unfold draw
    dsimp only
    split
    · exact number_lt words h position
    · exact ih (position + 1)

theorem bounded_drawn (words : Words) : (Drawn words).Bounded := by
  intro range position n next hrange h
  have hlt := draw_lt words hrange attempts position
  rwa [h] at hlt

theorem Redrawn.lt_next {words : Words} {range position n next : Nat}
    (h : Redrawn words range position n next) : position < next := by
  induction h with
  | taken => exact Nat.lt_succ_self _
  | again _ _ ih => omega

/-- Enough attempts find the word that is taken. -/
theorem Redrawn.draw_eq {words : Words} {range position n next : Nat}
    (h : Redrawn words range position n next) (attempts : Nat)
    (hnext : next ≤ position + attempts + 1) :
    draw words range attempts position = (n, next) := by
  induction h generalizing attempts with
  | taken h =>
    cases attempts with
    | zero => rfl
    | succ attempts => exact if_pos h
  | again h rest ih =>
    have hlt := rest.lt_next
    cases attempts with
    | zero => omega
    | succ attempts => exact (if_neg h).trans (ih attempts (by omega))

theorem Redrawn.unique {words : Words} {range position n next n' next' : Nat}
    (h : Redrawn words range position n next) (h' : Redrawn words range position n' next') :
    n = n' ∧ next = next' := by
  have hn := h.draw_eq (next + next') (by omega)
  have hn' := h'.draw_eq (next + next') (by omega)
  exact Prod.mk.inj (hn.symm.trans hn')

section
variable {drawing : Drawing}

/-- A number drawn that is taken gives way to the greatest of its range. -/
def freshOr (taken : List Nat) (greatest n : Nat) : Nat := if n ∈ taken then greatest else n

/-- The loop over growing ranges, from the greatest number of the first and the numbers taken so
far. -/
inductive FloydRun (drawing : Drawing) : Nat → List Nat → Nat → Nat → List Nat → Prop
  | done {greatest position : Nat} {taken : List Nat} :
      FloydRun drawing greatest taken position 0 taken
  | turn {greatest position count n next : Nat} {taken result : List Nat}
      (hdraw : drawing (greatest + 1) position n next)
      (rest : FloydRun drawing (greatest + 1) (freshOr taken greatest n :: taken) next count
        result) :
      FloydRun drawing greatest taken position (count + 1) result

theorem freshOr_notMem {taken : List Nat} {greatest : Nat} (hlt : ∀ m ∈ taken, m < greatest)
    (n : Nat) :
    freshOr taken greatest n ∉ taken := by
  unfold freshOr
  split
  -- the greatest of the range is new, as the numbers taken come from smaller ranges
  · exact fun hmem => Nat.lt_irrefl _ (hlt _ hmem)
  · assumption

/-- The numbers taken are distinct and below the range to come, and each turn adds one. -/
theorem FloydRun.nodup (hdrawing : drawing.Bounded) {greatest position count : Nat}
    {taken result : List Nat} (h : FloydRun drawing greatest taken position count result)
    (hnodup : taken.Nodup) (hlt : ∀ m ∈ taken, m < greatest) :
    result.Nodup ∧ result.length = taken.length + count ∧ ∀ m ∈ result, m < greatest + count := by
  induction h with
  | done => exact ⟨hnodup, rfl, hlt⟩
  | @turn greatest position count n next taken result hdraw rest ih =>
    have hn : n < greatest + 1 := hdrawing _ _ _ _ (Nat.succ_pos _) hdraw
    have hfresh : freshOr taken greatest n < greatest + 1 := by
      unfold freshOr
      split <;> omega
    obtain ⟨hnodup', hlength, hlt'⟩ := ih
      (List.nodup_cons.mpr ⟨freshOr_notMem hlt n, hnodup⟩)
      (List.forall_mem_cons.mpr ⟨hfresh, fun m hm => Nat.lt_succ_of_lt (hlt m hm)⟩)
    rw [List.length_cons] at hlength
    exact ⟨hnodup', by omega, fun m hm => by have := hlt' m hm; omega⟩

/-- The loop over a shrinking rest of the list, each of whose first entries changes places. -/
inductive ShuffleRun (drawing : Drawing) : Nat → List Nat → Nat → List Nat → Prop
  | done {entries : List Nat} {position : Nat} : ShuffleRun drawing 0 entries position []
  | stays {count first position next : Nat} {rest result : List Nat}
      (hdraw : drawing (rest.length + 1) position 0 next)
      (hrest : ShuffleRun drawing count rest next result) :
      ShuffleRun drawing (count + 1) (first :: rest) position (first :: result)
  | swaps {count first position next k : Nat} {rest result : List Nat}
      (hdraw : drawing (rest.length + 1) position (k + 1) next)
      (hrest : ShuffleRun drawing count (rest.set k first) next result) :
      ShuffleRun drawing (count + 1) (first :: rest) position (rest.getD k first :: result)

/-- An entry changes places with one of the rest. -/
theorem getD_cons_set_perm {α : Type} {k : Nat} {rest : List α} (h : k < rest.length) (first : α) :
    (rest.getD k first :: rest.set k first).Perm (first :: rest) := by
  have hget : rest.getD k first = rest[k] := by
    rw [List.getD_eq_getElem?_getD, List.getElem?_eq_getElem h, Option.getD_some]
  rw [hget]
  calc
    _ ~ rest[k] :: first :: rest.eraseIdx k := (List.set_perm_cons_eraseIdx h first).cons _
    _ ~ first :: rest[k] :: rest.eraseIdx k := .swap ..
    _ ~ first :: rest := (List.getElem_cons_eraseIdx_perm h).cons _

/-- The entries placed and those left over are the entries of the list. -/
theorem ShuffleRun.perm (hdrawing : drawing.Bounded) {count position : Nat}
    {entries result : List Nat} (h : ShuffleRun drawing count entries position result) :
    ∃ left, (result ++ left).Perm entries ∧ result.length = count := by
  induction h with
  | @done entries position => exact ⟨entries, .refl _, rfl⟩
  | stays _ _ ih =>
    obtain ⟨left, hperm, hlength⟩ := ih
    exact ⟨left, hperm.cons _, congrArg (· + 1) hlength⟩
  | @swaps count first position next k rest result hdraw _ ih =>
    obtain ⟨left, hperm, hlength⟩ := ih
    have hk : k < rest.length := Nat.lt_of_succ_lt_succ (hdrawing _ _ _ _ (Nat.succ_pos _) hdraw)
    exact ⟨left, (hperm.cons _).trans (getD_cons_set_perm hk first), congrArg (· + 1) hlength⟩

end

/-- Positions that one of the loops gives. -/
def Run (drawing : Drawing) (shuffling : Bool) (length count : Nat) (ps : List Nat) : Prop :=
  if shuffling then ShuffleRun drawing count (List.range length) 0 ps
  else FloydRun drawing (length - count) [] 0 count ps

/-- Either loop gives distinct positions of the list, as many as asked for. -/
theorem Run.nodup {drawing : Drawing} (hdrawing : drawing.Bounded) {shuffling : Bool}
    {length count : Nat} (hcount : count ≤ length) {ps : List Nat}
    (h : Run drawing shuffling length count ps) :
    ps.Nodup ∧ ps.length = count ∧ ∀ p ∈ ps, p < length := by
  cases shuffling with
  | false =>
    obtain ⟨hnodup, hlength, hlt⟩ := FloydRun.nodup hdrawing h List.nodup_nil (by simp)
    exact ⟨hnodup, by simpa using hlength, fun p hp => by have := hlt p hp; omega⟩
  | true =>
    obtain ⟨left, hperm, hlength⟩ := ShuffleRun.perm hdrawing h
    have hnodup : (ps ++ left).Nodup := hperm.nodup_iff.mpr List.nodup_range
    refine ⟨(List.nodup_append.mp hnodup).1, hlength, fun p hp => ?_⟩
    exact List.mem_range.mp (hperm.subset (List.mem_append_left _ hp))

/-- A drawing with one outcome for each range and position. -/
def Drawing.Functional (drawing : Drawing) : Prop :=
  ∀ range position n next n' next', drawing range position n next →
    drawing range position n' next' → n = n' ∧ next = next'

theorem FloydRun.unique {drawing : Drawing} (hdrawing : drawing.Functional)
    {greatest position count : Nat} {taken ps ps' : List Nat}
    (h : FloydRun drawing greatest taken position count ps)
    (h' : FloydRun drawing greatest taken position count ps') : ps = ps' := by
  induction h with
  | done => cases h'; rfl
  | turn hdraw _ ih =>
    cases h' with
    | turn hdraw' rest' =>
      obtain ⟨rfl, rfl⟩ := hdrawing _ _ _ _ _ _ hdraw hdraw'
      exact ih rest'

theorem ShuffleRun.unique {drawing : Drawing} (hdrawing : drawing.Functional) {count position : Nat}
    {entries ps ps' : List Nat} (h : ShuffleRun drawing count entries position ps)
    (h' : ShuffleRun drawing count entries position ps') : ps = ps' := by
  induction h generalizing ps' with
  | done => cases h'; rfl
  | stays hdraw _ ih =>
    cases h' with
    | stays hdraw' rest' =>
      obtain ⟨-, rfl⟩ := hdrawing _ _ _ _ _ _ hdraw hdraw'
      rw [ih rest']
    | swaps hdraw' rest' => cases (hdrawing _ _ _ _ _ _ hdraw hdraw').1
  | swaps hdraw _ ih =>
    cases h' with
    | stays hdraw' rest' => cases (hdrawing _ _ _ _ _ _ hdraw hdraw').1
    | swaps hdraw' rest' =>
      obtain ⟨hk, rfl⟩ := hdrawing _ _ _ _ _ _ hdraw hdraw'
      obtain rfl := Nat.succ.inj hk
      rw [ih rest']

theorem Run.unique {drawing : Drawing} (hdrawing : drawing.Functional) {shuffling : Bool}
    {length count : Nat} {ps ps' : List Nat} (h : Run drawing shuffling length count ps)
    (h' : Run drawing shuffling length count ps') : ps = ps' := by
  cases shuffling with
  | false => exact FloydRun.unique hdrawing h h'
  | true => exact ShuffleRun.unique hdrawing h h'

theorem FloydRun.mono {drawing drawing' : Drawing}
    (himp : ∀ range position n next, drawing range position n next → drawing' range position n next)
    {greatest position count : Nat} {taken ps : List Nat}
    (h : FloydRun drawing greatest taken position count ps) :
    FloydRun drawing' greatest taken position count ps := by
  induction h with
  | done => exact .done
  | turn hdraw _ ih => exact .turn (himp _ _ _ _ hdraw) ih

theorem ShuffleRun.mono {drawing drawing' : Drawing}
    (himp : ∀ range position n next, drawing range position n next → drawing' range position n next)
    {count position : Nat} {entries ps : List Nat}
    (h : ShuffleRun drawing count entries position ps) :
    ShuffleRun drawing' count entries position ps := by
  induction h with
  | done => exact .done
  | stays hdraw _ ih => exact .stays (himp _ _ _ _ hdraw) ih
  | swaps hdraw _ ih => exact .swaps (himp _ _ _ _ hdraw) ih

theorem Run.mono {drawing drawing' : Drawing}
    (himp : ∀ range position n next, drawing range position n next → drawing' range position n next)
    {shuffling : Bool} {length count : Nat} {ps : List Nat}
    (h : Run drawing shuffling length count ps) : Run drawing' shuffling length count ps := by
  cases shuffling with
  | false => exact FloydRun.mono himp h
  | true => exact ShuffleRun.mono himp h

section
variable (words : Words)

/-- Words are drawn until one is taken, after at most so many others. -/
def RedrawnWithin (attempts : Nat) : Drawing := fun range position n next =>
  Redrawn words range position n next ∧ next ≤ position + attempts + 1

theorem functional_redrawn : (Redrawn words).Functional :=
  fun _ _ _ _ _ _ h h' => h.unique h'

theorem functional_drawn : (Drawn words).Functional :=
  fun _ _ _ _ _ _ h h' => Prod.mk.inj (h.symm.trans h')

/-- One turn of the loop over growing ranges. -/
def floydTurn (state : List Nat × Nat) (greatest : Nat) : List Nat × Nat :=
  let drawn := draw words (greatest + 1) attempts state.2
  (freshOr state.1 greatest drawn.1 :: state.1, drawn.2)

theorem floyd_eq (length count : Nat) :
    floyd words length count =
      ((List.range' (length - count) count).foldl (floydTurn words) ([], 0)).1 := by
  unfold floyd
  dsimp only
  congr 2
  funext state greatest
  simp only [floydTurn, freshOr, List.contains_iff_mem]
  split <;> rfl

theorem floydRun_foldl (count greatest : Nat) (taken : List Nat) (position : Nat) :
    FloydRun (Drawn words) greatest taken position count
      ((List.range' greatest count).foldl (floydTurn words) (taken, position)).1 := by
  induction count generalizing greatest taken position with
  | zero => exact .done
  | succ count ih =>
    rw [List.range'_succ, List.foldl_cons]
    exact .turn rfl (ih ..)

theorem floydRun_floyd (length count : Nat) :
    FloydRun (Drawn words) (length - count) [] 0 count (floyd words length count) := by
  rw [floyd_eq]
  exact floydRun_foldl ..

theorem shuffleRun_shuffle {count : Nat} {entries : List Nat} (h : count ≤ entries.length)
    (position : Nat) :
    ShuffleRun (Drawn words) count entries position (shuffle words count entries position) := by
  induction count generalizing entries position with
  | zero => exact .done
  | succ count ih =>
    cases entries with
    | nil => cases h
    | cons first rest =>
      have hrest := Nat.le_of_succ_le_succ h
      unfold shuffle
      cases hdraw : draw words (rest.length + 1) attempts position with
      | mk k next =>
        cases k with
        | zero => exact .stays hdraw (ih hrest next)
        | succ k => exact .swaps hdraw (ih (by rwa [List.length_set]) next)

theorem run_positions {length count : Nat} (h : count ≤ length) :
    Run (Drawn words) (shuffles length count) length count (positions words length count) := by
  unfold Run positions
  split
  · exact shuffleRun_shuffle words (by rwa [List.length_range]) 0
  · exact floydRun_floyd words length count

/-- Where no draw meets more words to draw again than there are attempts, their limit changes
nothing. -/
theorem eq_positions_of_run {length count : Nat} (hcount : count ≤ length) {ps : List Nat}
    (h : Run (RedrawnWithin words attempts) (shuffles length count) length count ps) :
    ps = positions words length count := by
  have hdrawn : Run (Drawn words) (shuffles length count) length count ps :=
    h.mono fun _ _ _ _ hdraw => hdraw.1.draw_eq attempts hdraw.2
  exact hdrawn.unique (functional_drawn words) (run_positions words hcount)

end

end Questionnaire.Sample
