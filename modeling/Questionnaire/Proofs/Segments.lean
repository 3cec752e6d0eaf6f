import Mathlib.Data.List.Infix
import Questionnaire.Text.Path

/-! Segments of dotted paths: which paths lead to which, and the path that joins given names. -/
namespace Questionnaire.Text

/-- The segments of a path begin with those of a key. -/
def LeadsTo (key path : String) : Prop := segments key <+: segments path

/-- A key has all segments of a path and more after them. -/
def GoesOnFrom (key path : String) : Prop := LeadsTo path key ∧ segments key ≠ segments path

instance (key path : String) : Decidable (LeadsTo key path) :=
  inferInstanceAs (Decidable (segments key <+: segments path))

instance (key path : String) : Decidable (GoesOnFrom key path) :=
  inferInstanceAs (Decidable (LeadsTo path key ∧ segments key ≠ segments path))

theorem LeadsTo.of_back {key path : String} (hback : LeadsTo path key)
    (hon : ¬ GoesOnFrom key path) : LeadsTo key path := by
  have heq : segments key = segments path := by_contra fun hne => hon ⟨hback, hne⟩
  exact ⟨[], (List.append_nil _).trans heq⟩

/-- A key that goes on from a path goes on from all that leads to the path. -/
theorem GoesOnFrom.of_leadsTo {key path start : String} (h : GoesOnFrom key path)
    (hstart : LeadsTo start path) : GoesOnFrom key start := by
  refine ⟨hstart.trans h.1, fun hsame => h.2 ?_⟩
  exact (h.1.eq_of_length_le (hsame ▸ hstart.length_le)).symm

theorem splitAtDots_cons {c : Char} (hc : c ≠ '.') (s : List Char) :
    ∃ segment others, splitAtDots s = segment :: others ∧
      splitAtDots (c :: s) = (c :: segment) :: others := by
  obtain ⟨segment, others, hs⟩ := List.exists_cons_of_ne_nil (splitAtDots_ne_nil s)
  refine ⟨segment, others, hs, ?_⟩
  rw [splitAtDots, if_neg hc, hs]

theorem splitAtDots_dot (s : List Char) : splitAtDots ('.' :: s) = [] :: splitAtDots s := by
  rw [splitAtDots, if_pos rfl]

theorem prefix_of_splitAtDots_prefix {s t : List Char} (h : splitAtDots s <+: splitAtDots t) :
    s <+: t := by
  induction s generalizing t with
  | nil => exact List.nil_prefix
  | cons c s ih =>
    by_cases hc : c = '.'
    · subst hc
      rw [splitAtDots_dot] at h
      cases t with
      | nil =>
        obtain ⟨-, h⟩ := List.cons_prefix_cons.mp h
        exact absurd (List.prefix_nil.mp h) (splitAtDots_ne_nil s)
      | cons d t =>
        by_cases hd : d = '.'
        · subst hd
          rw [splitAtDots_dot, List.prefix_cons_inj] at h
          exact (List.prefix_cons_inj '.').mpr (ih h)
        · obtain ⟨segment, others, -, ht⟩ := splitAtDots_cons hd t
          rw [ht, List.cons_prefix_cons] at h
          cases h.1
    · obtain ⟨segment, others, hs, hcs⟩ := splitAtDots_cons hc s
      rw [hcs] at h
      cases t with
      | nil => cases (List.cons_prefix_cons.mp h).1
      | cons d t =>
        by_cases hd : d = '.'
        · subst hd
          rw [splitAtDots_dot, List.cons_prefix_cons] at h
          cases h.1
        · obtain ⟨segment', others', ht, hdt⟩ := splitAtDots_cons hd t
          rw [hdt, List.cons_prefix_cons] at h
          obtain ⟨heq, hothers⟩ := h
          obtain ⟨rfl, rfl⟩ := List.cons.inj heq
          refine (List.prefix_cons_inj c).mpr (ih ?_)
          rw [hs, ht]
          exact (List.prefix_cons_inj segment).mpr hothers

theorem toList_prefix_of_leadsTo {key path : String} (h : LeadsTo key path) :
    key.toList <+: path.toList := by
  have hinj : Function.Injective String.ofList := fun _ _ => String.ofList_injective
  exact prefix_of_splitAtDots_prefix ((List.prefix_map_iff_of_injective hinj).mp h)

/-- A key stands before the keys to which it leads. -/
theorem lt_of_leadsTo {key path : String} (h : LeadsTo key path) (hne : key ≠ path) :
    key < path := by
  obtain ⟨rest, hrest⟩ := toList_prefix_of_leadsTo h
  cases rest with
  | nil =>
    rw [List.append_nil] at hrest
    exact absurd (String.toList_injective hrest) hne
  | cons c rest =>
    have hlt : key.toList ++ [] < key.toList ++ c :: rest :=
      List.append_left_lt (List.nil_lt_cons c rest)
    rw [List.append_nil, hrest] at hlt
    exact hlt

/-- The dotted path over the members with these names. -/
def address (names : List String) : String := ".".intercalate names

theorem splitAtDots_append_dot (s t : List Char) :
    splitAtDots (s ++ '.' :: t) = splitAtDots s ++ splitAtDots t := by
  induction s with
  | nil => exact splitAtDots_dot t
  | cons c s ih =>
    by_cases hc : c = '.'
    · subst hc
      rw [List.cons_append, splitAtDots_dot, splitAtDots_dot, ih, List.cons_append]
    · obtain ⟨segment, others, hs, hcs⟩ := splitAtDots_cons hc s
      rw [List.cons_append, splitAtDots, if_neg hc, ih, hs, hcs]
      rfl

theorem splitAtDots_of_undotted {s : List Char} (h : '.' ∉ s) : splitAtDots s = [s] := by
  induction s with
  | nil => rfl
  | cons c s ih =>
    have hc : c ≠ '.' := (List.ne_of_not_mem_cons h).symm
    rw [splitAtDots, if_neg hc, ih (List.not_mem_of_not_mem_cons h)]

theorem undotted_of_mem_splitAtDots {s segment : List Char} (h : segment ∈ splitAtDots s) :
    '.' ∉ segment := by
  induction s generalizing segment with
  | nil =>
    obtain rfl := List.mem_singleton.mp h
    exact List.not_mem_nil
  | cons c s ih =>
    by_cases hc : c = '.'
    · subst hc
      rw [splitAtDots_dot] at h
      rcases List.mem_cons.mp h with rfl | h
      · exact List.not_mem_nil
      · exact ih h
    · obtain ⟨first, others, hs, hcs⟩ := splitAtDots_cons hc s
      rw [hcs] at h
      rw [hs] at ih
      rcases List.mem_cons.mp h with rfl | h
      · exact List.not_mem_cons_of_ne_of_not_mem (Ne.symm hc) (ih List.mem_cons_self)
      · exact ih (List.mem_cons_of_mem first h)

theorem segments_of_undotted {name : String} (h : '.' ∉ name.toList) : segments name = [name] := by
  rw [segments, splitAtDots_of_undotted h, List.map_singleton, String.ofList_toList]

theorem undotted_of_mem_segments {path segment : String} (h : segment ∈ segments path) :
    '.' ∉ segment.toList := by
  obtain ⟨s, hs, rfl⟩ := List.mem_map.mp h
  rw [String.toList_ofList]
  exact undotted_of_mem_splitAtDots hs

theorem flatMap_segments_of_undotted {names : List String}
    (h : ∀ name ∈ names, '.' ∉ name.toList) : names.flatMap segments = names := by
  induction names with
  | nil => rfl
  | cons name names ih =>
    obtain ⟨hname, hnames⟩ := List.forall_mem_cons.mp h
    rw [List.flatMap_cons, segments_of_undotted hname, ih hnames, List.singleton_append]

theorem segments_append_dot (p q : String) :
    segments (p ++ "." ++ q) = segments p ++ segments q := by
  have hjoin : (p ++ "." ++ q).toList = p.toList ++ '.' :: q.toList := by simp
  rw [segments, hjoin, splitAtDots_append_dot, List.map_append]
  rfl

/-- The segments of an address are those of the names on it. -/
theorem segments_address (name : String) (names : List String) :
    segments (address (name :: names)) = segments name ++ names.flatMap segments := by
  induction names generalizing name with
  | nil => rw [address, String.intercalate_singleton, List.flatMap_nil, List.append_nil]
  | cons next names ih =>
    have hjoin : address (name :: next :: names) = name ++ "." ++ address (next :: names) := by
      simp [address]
    rw [hjoin, segments_append_dot, ih next, List.flatMap_cons]

theorem leadsTo_iff_of_undotted {name path : String} (h : '.' ∉ name.toList) :
    LeadsTo name path ↔ (segments path).head? = some name := by
  obtain ⟨segment, rest, hsegments⟩ := List.exists_cons_of_ne_nil (segments_ne_nil path)
  rw [LeadsTo, segments_of_undotted h, hsegments, List.head?_cons, Option.some.injEq,
    List.cons_prefix_cons]
  exact ⟨fun ⟨heq, _⟩ => heq.symm, fun heq => ⟨heq.symm, List.nil_prefix⟩⟩

theorem segments_address_of_undotted (name : String) {names : List String}
    (h : ∀ name ∈ names, '.' ∉ name.toList) :
    segments (address (name :: names)) = segments name ++ names := by
  rw [segments_address, flatMap_segments_of_undotted h]

theorem eq_of_segments_eq {a b : String} (h : segments a = segments b) : a = b := by
  by_contra hne
  have hab : LeadsTo a b := ⟨[], (List.append_nil _).trans h⟩
  have hba : LeadsTo b a := ⟨[], (List.append_nil _).trans h.symm⟩
  exact String.lt_asymm (lt_of_leadsTo hab hne) (lt_of_leadsTo hba (Ne.symm hne))

end Questionnaire.Text
