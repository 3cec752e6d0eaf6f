import Mathlib.Data.List.Sort
import Questionnaire.Proofs.Occurrence
import Questionnaire.Proofs.Sampling

/-! What a group presents: its children at distinct positions, as many as it selects, in the order
of definition. -/
namespace Questionnaire

/-- So many distinct positions of a list, in its order. -/
structure Ascending (length count : Nat) (ps : List Nat) : Prop where
  increasing : ps.Pairwise (· < ·)
  below : ∀ p ∈ ps, p < length
  length_eq : ps.length = count

theorem ascending_range (length : Nat) : Ascending length length (List.range length) :=
  ⟨List.pairwise_lt_range, fun _ => List.mem_range.mp, List.length_range⟩

theorem pairwise_lt_mergeSort {ps : List Nat} (h : ps.Nodup) : ps.mergeSort.Pairwise (· < ·) := by
  have hle : ps.mergeSort.Pairwise (· ≤ ·) := List.pairwise_mergeSort' (· ≤ ·) ps
  have hne : ps.mergeSort.Nodup := (List.mergeSort_perm ps _).nodup_iff.mpr h
  exact (hle.and hne).imp fun h => Nat.lt_of_le_of_ne h.1 h.2

theorem ascending_mergeSort {ps : List Nat} {length : Nat} (h : ps.Nodup)
    (hlt : ∀ p ∈ ps, p < length) :
    Ascending length ps.length ps.mergeSort :=
  ⟨pairwise_lt_mergeSort h, fun p hp => hlt p (List.mem_mergeSort.mp hp), List.length_mergeSort ps⟩

theorem keepAt_range' (ps : List Nat) (start length : Nat) :
    keepAt ps start (List.range' start length) =
      (List.range' start length).filter (fun p => ps.contains p) := by
  induction length generalizing start with
  | zero => rfl
  | succ length ih =>
    rw [List.range'_succ, keepAt, List.filter_cons, ih]

/-- The positions kept are those given, sorted. -/
theorem keepAt_range {ps : List Nat} {length : Nat} (h : ps.Nodup) (hlt : ∀ p ∈ ps, p < length) :
    keepAt ps 0 (List.range length) = ps.mergeSort := by
  rw [List.range_eq_range', keepAt_range', ← List.range_eq_range']
  have hkept : ((List.range length).filter (fun p => ps.contains p)).Pairwise (· < ·) :=
    List.pairwise_lt_range.filter _
  have hsame : ((List.range length).filter (fun p => ps.contains p)).Perm ps.mergeSort := by
    refine ((List.perm_ext_iff_of_nodup (List.nodup_range.filter _) h).mpr fun p => ?_).trans
      (List.mergeSort_perm ps _).symm
    rw [List.mem_filter, List.mem_range, List.contains_iff_mem]
    exact ⟨And.right, fun hp => ⟨hlt p hp, hp⟩⟩
  exact hsame.eq_of_pairwise' (hkept.imp Nat.le_of_lt) ((pairwise_lt_mergeSort h).imp Nat.le_of_lt)

/-- Each element of a list at its position. -/
theorem map_some_eq (xs : List Item) : xs.map some = (List.range xs.length).map (xs[·]?) := by
  refine List.ext_getElem (by simp) fun i hi _ => ?_
  simp only [List.length_map] at hi
  simp [hi]

theorem keepAt_map_some {ps : List Nat} {xs : List Item} (h : ps.Nodup)
    (hlt : ∀ p ∈ ps, p < xs.length) :
    (keepAt ps 0 xs).map some = ps.mergeSort.map (xs[·]?) := by
  rw [← keepAt_map, map_some_eq, keepAt_map, keepAt_range h hlt]

namespace Selection

/-- How many of so many children are presented. -/
def quota (length : Nat) : Selection → Nat
  | .sequential => length
  | .randomSubset count => min count length

/-- The positions that a group presents, where the draws of a sample come from `drawing` and the
loop is chosen by `shuffling`. -/
inductive Chooses (drawing : Sample.Drawing) (shuffling : Nat → Nat → Bool) (length : Nat) :
    Selection → List Nat → Prop
  | sequential : Chooses drawing shuffling length .sequential (List.range length)
  | all {count : Nat} (h : length ≤ count) :
      Chooses drawing shuffling length (.randomSubset count) (List.range length)
  | sample {count : Nat} {ps : List Nat} (h : count < length)
      (hrun : Sample.Run drawing (shuffling length count) length count ps) :
      Chooses drawing shuffling length (.randomSubset count) ps.mergeSort

section
variable {drawing : Sample.Drawing} {shuffling : Nat → Nat → Bool} {length : Nat}
  {selection : Selection} {ps ps' : List Nat}

theorem Chooses.ascending (hdrawing : drawing.Bounded)
    (h : Chooses drawing shuffling length selection ps) :
    Ascending length (selection.quota length) ps := by
  cases h with
  | sequential => exact ascending_range length
  | all hall =>
    rw [quota, Nat.min_eq_right hall]
    exact ascending_range length
  | sample hsome hrun =>
    obtain ⟨hnodup, hcount, hlt⟩ := hrun.nodup hdrawing hsome.le
    rw [quota, Nat.min_eq_left hsome.le, ← hcount]
    exact ascending_mergeSort hnodup hlt

theorem Chooses.unique (hdrawing : drawing.Functional)
    (h : Chooses drawing shuffling length selection ps)
    (h' : Chooses drawing shuffling length selection ps') : ps = ps' := by
  cases h with
  | sequential => cases h'; rfl
  | all hall =>
    cases h' with
    | all => rfl
    | sample hsome => omega
  | sample hsome hrun =>
    cases h' with
    | all hall => omega
    | sample _ hrun' => rw [hrun.unique hdrawing hrun']

end

/-- The words for a seed. -/
def words (seed : UInt64) : Sample.Words := ChaCha.word (ChaCha.keyOfSeed seed)

/-- The positions that a group presents for a seed. -/
def positions (seed : UInt64) (length : Nat) : Selection → List Nat
  | .sequential => List.range length
  | .randomSubset count =>
    if length ≤ count then List.range length
    else (Sample.positions (words seed) length count).mergeSort

theorem chooses_positions (seed : UInt64) (length : Nat) (selection : Selection) :
    Chooses (Sample.Drawn (words seed)) Sample.shuffles length selection
      (selection.positions seed length) := by
  cases selection with
  | sequential => exact .sequential
  | randomSubset count =>
    by_cases hall : length ≤ count
    · rw [positions, if_pos hall]
      exact .all hall
    · rw [positions, if_neg hall]
      exact .sample (Nat.lt_of_not_le hall) (Sample.run_positions _ (Nat.le_of_not_le hall))

/-- The limit on what is drawn again changes nothing that it does not stop. -/
theorem Chooses.eq_positions {seed : UInt64} {length : Nat} {selection : Selection} {ps : List Nat}
    (h : Chooses (Sample.RedrawnWithin (words seed) Sample.attempts) Sample.shuffles length
      selection ps) :
    ps = selection.positions seed length := by
  cases h with
  | sequential => rfl
  | all hall => rw [positions, if_pos hall]
  | sample hsome hrun =>
    rw [positions, if_neg (Nat.not_le_of_lt hsome), Sample.eq_positions_of_run _ hsome.le hrun]

end Selection

theorem Item.chosen_of_le {items : List Item} {count : Nat} (h : items.length ≤ count)
    (ctx : Context) (seeder : Seeder) (header : Header) :
    (group header (.randomSubset count) items).chosen ctx seeder = items := by
  rw [chosen, if_pos h]

/-- What a group presents are its children at the positions for its seed. -/
theorem Item.chosen_map_some (ctx : Context) (seeder : Seeder) (header : Header)
    (selection : Selection) (items : List Item) :
    ((group header selection items).chosen ctx seeder).map some =
      (selection.positions (seeder ctx header.key) items.length).map (items[·]?) := by
  cases selection with
  | sequential => exact map_some_eq items
  | randomSubset count =>
    by_cases hall : items.length ≤ count
    · rw [chosen_of_le hall, Selection.positions, if_pos hall]
      exact map_some_eq items
    · have hcount := Nat.le_of_not_le hall
      have hrun := Sample.run_positions (Selection.words (seeder ctx header.key)) hcount
      obtain ⟨hnodup, -, hlt⟩ := hrun.nodup (Sample.bounded_drawn _) hcount
      rw [chosen, if_neg hall, Selection.positions, if_neg hall]
      exact keepAt_map_some hnodup hlt

theorem Seeder.digest_eq {a b : Context} (h : a.participantId.getD "" = b.participantId.getD "")
    (key : String) : digest a key = digest b key := by
  rw [digest, digest, h]

theorem Item.chosen_congr {a b : Context} {seeder : Seeder} (h : ∀ key, seeder a key = seeder b key)
    (item : Item) : item.chosen a seeder = item.chosen b seeder := by
  cases item with
  | group header selection items =>
    cases selection with
    | sequential => rfl
    | randomSubset count => simp only [chosen, h]
  | question => rfl
  | pageBreak => rfl

/-- For every context and seeder a group presents its children at as many distinct positions as it
selects, in the order of definition, and all of them where it selects no fewer. With the digest the
positions follow from the participant, the key, the number of children and the selection. The same
holds on every stream of words on which drawing without a limit ends, and the limit changes no
positions unless a draw meets more words to draw again than it allows. -/
theorem Item.groups_present_children_in_order :
    (∀ (ctx : Context) (seeder : Seeder) (header : Header) (selection : Selection)
      (items : List Item),
      let ps := selection.positions (seeder ctx header.key) items.length
      Ascending items.length (selection.quota items.length) ps ∧
        ((group header selection items).chosen ctx seeder).map some = ps.map (items[·]?)) ∧
    (∀ (ctx : Context) (seeder : Seeder) (header : Header) (selection : Selection)
      (items : List Item),
      selection.quota items.length = items.length →
      (group header selection items).chosen ctx seeder = items) ∧
    (∀ a b : Context, a.participantId.getD "" = b.participantId.getD "" →
      (∀ (key : String) (selection : Selection) (length : Nat),
        selection.positions (Seeder.digest a key) length =
          selection.positions (Seeder.digest b key) length) ∧
      ∀ item : Item, item.chosen a .digest = item.chosen b .digest) ∧
    (∀ (words : Sample.Words) (shuffling : Nat → Nat → Bool) (length : Nat) (selection : Selection)
      (ps : List Nat), selection.Chooses (Sample.Redrawn words) shuffling length ps →
      Ascending length (selection.quota length) ps ∧
        ∀ ps', selection.Chooses (Sample.Redrawn words) shuffling length ps' → ps' = ps) ∧
    (∀ (seed : UInt64) (length : Nat) (selection : Selection) (ps : List Nat),
      selection.Chooses (Sample.RedrawnWithin (Selection.words seed) Sample.attempts)
        Sample.shuffles length ps → ps = selection.positions seed length) := by
  refine ⟨fun ctx seeder header selection items => ⟨?_, chosen_map_some ..⟩,
    fun ctx seeder header selection items hquota => ?_, fun a b h => ⟨?_, ?_⟩,
    fun words shuffling length selection ps h => ⟨?_, ?_⟩, fun _ _ _ _ h => h.eq_positions⟩
  · exact (Selection.chooses_positions ..).ascending (Sample.bounded_drawn _)
  · cases selection with
    | sequential => rfl
    | randomSubset count =>
      exact chosen_of_le (hquota.ge.trans (Nat.min_le_left count _)) ctx seeder header
  · intro key selection length
    rw [Seeder.digest_eq h]
  · exact chosen_congr (Seeder.digest_eq h)
  · exact h.ascending (Sample.bounded_redrawn words)
  · exact fun ps' h' => h'.unique (Sample.functional_redrawn words) h

/-- Three pages, two of which are presented. -/
def twoPages : Item :=
  .group ⟨"s", 1, none, []⟩ (.randomSubset 2)
    [.pageBreak "s.a" none, .pageBreak "s.b" none, .pageBreak "s.c" none]

/-- A stream whose first word is drawn again and whose others are zero. -/
def oneRefused : Sample.Words := fun position => if position = 0 then 0x55555555 else 0

/-- The second number drawn is taken already and gives way to the last position. -/
theorem chooses_oneRefused :
    (Selection.randomSubset 2).Chooses (Sample.Redrawn oneRefused) Sample.shuffles 3 [0, 2] := by
  have hfirst : Sample.Redrawn oneRefused 2 0 0 2 := .again (by decide) (.taken (by decide))
  have hsecond : Sample.Redrawn oneRefused 3 2 0 3 := .taken (by decide)
  have hrun : Sample.Run (Sample.Redrawn oneRefused) (Sample.shuffles 3 2) 3 2 [2, 0] :=
    .turn hfirst (.turn hsecond .done)
  have hsorted : [0, 2] = [2, 0].mergeSort := by simp [List.mergeSort]
  rw [hsorted]
  exact .sample (by decide) hrun

/-- Two pages are presented, the same ones later and with an answer; on a stream with a word drawn
again they are the first and the last. -/
theorem two_of_three_presented :
    let now := (Context.empty 0).withParticipantId "p"
    let later := ((Context.empty 1).withParticipantId "p").insertResponse "s.q" (.leaf "rg" none)
    (twoPages.chosen now .digest).length = 2 ∧
      twoPages.chosen now .digest = twoPages.chosen later .digest ∧
      (Item.group ⟨"s", 1, none, []⟩ (.randomSubset 3) twoPages.children).chosen now .digest =
        twoPages.children ∧
      Ascending 3 2 [0, 2] := by
  intro now later
  obtain ⟨hpositions, hall, hdigest, hstreams, -⟩ := Item.groups_present_children_in_order
  obtain ⟨hascending, hchosen⟩ :=
    hpositions now .digest ⟨"s", 1, none, []⟩ (.randomSubset 2) twoPages.children
  have hlength := congrArg List.length hchosen
  rw [List.length_map, List.length_map, hascending.length_eq] at hlength
  exact ⟨hlength, (hdigest now later rfl).2 twoPages, hall _ _ _ _ _ rfl,
    (hstreams _ _ _ _ _ chooses_oneRefused).1⟩

end Questionnaire
