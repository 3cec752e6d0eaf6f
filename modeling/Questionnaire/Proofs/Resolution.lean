import Mathlib.Data.List.Nodup
import Mathlib.Data.Set.Function
import Questionnaire.Proofs.Segments
import Questionnaire.Response

/-! Dotted paths in a tree of answers. Where no key has a dot in it and siblings differ in their
keys, the paths that are resolved are the nodes' own, one for each. -/
namespace Questionnaire.ResponseNode
open Text

/-- The node at a place, which says what child to take, from the outermost node inwards. -/
def at? : ResponseNode → List Nat → Option ResponseNode
  | node, [] => some node
  | node, i :: place => node.children[i]?.bind fun child => child.at? place

/-- The keys of the nodes on the way to a place, below the outermost. -/
def keysBelow : ResponseNode → List Nat → List String
  | _, [] => []
  | node, i :: place =>
    node.children[i]?.elim [] fun child => child.key :: child.keysBelow place

def keysTo (node : ResponseNode) (place : List Nat) : List String :=
  node.key :: node.keysBelow place

/-- The keys from the outermost node down to a place, with dots between them. -/
def pathTo (node : ResponseNode) (place : List Nat) : String := address (node.keysTo place)

/-- On the way to a place no child is passed over that has the key of the one that is taken. -/
def TakesFirst : ResponseNode → List Nat → Prop
  | _, [] => True
  | node, i :: place =>
    ∃ child, node.children[i]? = some child ∧
      (∀ j < i, ∀ sibling, node.children[j]? = some sibling → sibling.key ≠ child.key) ∧
      child.TakesFirst place

/-- No key in a tree has a dot in it, and no two siblings have the same key. -/
inductive Addressable : ResponseNode → Prop
  | intro {node : ResponseNode} (hkey : '.' ∉ node.key.toList) (hsiblings : node.selectedKeys.Nodup)
      (hbelow : ∀ child ∈ node.children, Addressable child) : Addressable node

theorem at?_cons_eq_some_iff {node found : ResponseNode} {i : Nat} {place : List Nat} :
    node.at? (i :: place) = some found ↔
      ∃ child, node.children[i]? = some child ∧ child.at? place = some found := by
  rw [at?, Option.bind_eq_some_iff]

theorem keysBelow_cons {node child : ResponseNode} {i : Nat} (h : node.children[i]? = some child)
    (place : List Nat) : node.keysBelow (i :: place) = child.key :: child.keysBelow place := by
  rw [keysBelow, h]
  rfl

theorem getLast?_keysTo {node found : ResponseNode} {place : List Nat}
    (h : node.at? place = some found) : (node.keysTo place).getLast? = some found.key := by
  induction place generalizing node with
  | nil =>
    obtain rfl := Option.some.inj h
    rfl
  | cons i place ih =>
    obtain ⟨child, hchild, hplace⟩ := at?_cons_eq_some_iff.mp h
    have hlast := ih hplace
    rw [keysTo] at hlast
    rw [keysTo, keysBelow_cons hchild, List.getLast?_cons_cons, hlast]

theorem child?_eq_some_iff {node child : ResponseNode} {key : String} :
    node.child? key = some child ↔
      ∃ i : Nat, node.children[i]? = some child ∧ child.key = key ∧
        ∀ j < i, ∀ sibling, node.children[j]? = some sibling → sibling.key ≠ key := by
  rw [child?, List.find?_eq_some_iff_getElem]
  constructor
  · rintro ⟨hkey, i, hi, rfl, hbefore⟩
    refine ⟨i, List.getElem?_eq_getElem hi, by simpa using hkey, fun j hj sibling hsibling => ?_⟩
    obtain ⟨hlt, rfl⟩ := List.getElem?_eq_some_iff.mp hsibling
    simpa using hbefore j hj
  · rintro ⟨i, hchild, hkey, hbefore⟩
    obtain ⟨hi, rfl⟩ := List.getElem?_eq_some_iff.mp hchild
    refine ⟨by simpa using hkey, i, hi, rfl, fun j hj => ?_⟩
    have hlt : j < node.children.length := by omega
    simpa using hbefore j hj _ (List.getElem?_eq_getElem hlt)

/-- A walk over keys ends where a way over first children with these keys does. -/
theorem descend_eq_some_iff {node found : ResponseNode} {keys : List String} :
    node.descend keys = some found ↔
      ∃ place, node.TakesFirst place ∧ node.at? place = some found ∧
        node.keysBelow place = keys := by
  induction keys generalizing node with
  | nil =>
    constructor
    · intro h
      exact ⟨[], trivial, h, rfl⟩
    · rintro ⟨place, -, hplace, hkeys⟩
      cases place with
      | nil => exact hplace
      | cons i place =>
        obtain ⟨child, hchild, -⟩ := at?_cons_eq_some_iff.mp hplace
        rw [keysBelow_cons hchild] at hkeys
        cases hkeys
  | cons key keys ih =>
    rw [descend, Option.bind_eq_some_iff]
    constructor
    · rintro ⟨child, hchild, hdescend⟩
      obtain ⟨i, hi, rfl, hbefore⟩ := child?_eq_some_iff.mp hchild
      obtain ⟨place, hfirst, hplace, rfl⟩ := ih.mp hdescend
      exact ⟨i :: place, ⟨child, hi, hbefore, hfirst⟩,
        at?_cons_eq_some_iff.mpr ⟨child, hi, hplace⟩, keysBelow_cons hi place⟩
    · rintro ⟨place, hfirst, hplace, hkeys⟩
      cases place with
      | nil => cases hkeys
      | cons i place =>
        obtain ⟨child, hi, hbefore, hfirst⟩ := hfirst
        rw [at?, hi] at hplace
        rw [keysBelow_cons hi] at hkeys
        obtain ⟨rfl, rfl⟩ := List.cons.inj hkeys
        exact ⟨child, child?_eq_some_iff.mpr ⟨i, hi, rfl, hbefore⟩,
          ih.mpr ⟨place, hfirst, hplace, rfl⟩⟩

theorem descend_append (node : ResponseNode) (first second : List String) :
    node.descend (first ++ second) = (node.descend first).bind (·.descend second) := by
  induction first generalizing node with
  | nil => rfl
  | cons key first ih =>
    rw [List.cons_append, descend, descend, Option.bind_assoc]
    congr 1
    funext child
    exact ih child

theorem resolve_eq {node : ResponseNode} {path segment : String} {rest : List String}
    (h : segments path = segment :: rest) :
    node.resolve path = if segment = node.key then node.descend rest else none := by
  rw [resolve, h]

theorem resolve_eq_some_iff {node found : ResponseNode} {path : String} :
    node.resolve path = some found ↔
      ∃ place, node.TakesFirst place ∧ node.at? place = some found ∧
        node.keysTo place = segments path := by
  obtain ⟨segment, rest, hsegments⟩ := List.exists_cons_of_ne_nil (segments_ne_nil path)
  rw [resolve_eq hsegments, hsegments]
  by_cases hkey : segment = node.key
  · rw [if_pos hkey, hkey, descend_eq_some_iff]
    simp only [keysTo, List.cons.injEq, true_and]
  · rw [if_neg hkey]
    simp only [keysTo, List.cons.injEq, Ne.symm hkey, false_and, and_false, exists_false,
      reduceCtorEq]

theorem resolve_append_dot (node : ResponseNode) (p q : String) :
    node.resolve (p ++ "." ++ q) = (node.resolve p).bind (·.descend (segments q)) := by
  obtain ⟨segment, rest, hsegments⟩ := List.exists_cons_of_ne_nil (segments_ne_nil p)
  have happend : segments (p ++ "." ++ q) = segment :: (rest ++ segments q) := by
    rw [segments_append_dot, hsegments, List.cons_append]
  rw [resolve_eq hsegments, resolve_eq happend, descend_append]
  split <;> rfl

/-- A way over first children is determined by the keys on it. -/
theorem TakesFirst.unique {node : ResponseNode} {a b : List Nat} (ha : node.TakesFirst a)
    (hb : node.TakesFirst b) (hkeys : node.keysBelow a = node.keysBelow b) : a = b := by
  induction a generalizing node b with
  | nil =>
    cases b with
    | nil => rfl
    | cons j b =>
      obtain ⟨child, hchild, -, -⟩ := hb
      rw [keysBelow_cons hchild] at hkeys
      cases hkeys
  | cons i a ih =>
    obtain ⟨child, hi, hibefore, ha⟩ := ha
    rw [keysBelow_cons hi] at hkeys
    cases b with
    | nil => cases hkeys
    | cons j b =>
      obtain ⟨other, hj, hjbefore, hb⟩ := hb
      rw [keysBelow_cons hj] at hkeys
      obtain ⟨hkey, hkeys⟩ := List.cons.inj hkeys
      have hij : i = j := by
        rcases Nat.lt_trichotomy i j with hlt | heq | hlt
        · exact absurd hkey (hjbefore i hlt child hi)
        · exact heq
        · exact absurd hkey.symm (hibefore j hlt other hj)
      subst hij
      obtain rfl := Option.some.inj (hi.symm.trans hj)
      rw [ih ha hb hkeys]

theorem segments_pathTo {node : ResponseNode} {place : List Nat}
    (h : ∀ key ∈ node.keysTo place, '.' ∉ key.toList) :
    segments (node.pathTo place) = node.keysTo place := by
  obtain ⟨hkey, hbelow⟩ := List.forall_mem_cons.mp h
  rw [pathTo, keysTo, segments_address_of_undotted node.key hbelow, segments_of_undotted hkey]
  rfl

namespace Addressable
variable {node : ResponseNode} (h : node.Addressable)
include h

theorem child {i : Nat} {child : ResponseNode} (hchild : node.children[i]? = some child) :
    child.Addressable := by
  obtain ⟨-, -, hbelow⟩ := h
  exact hbelow child (List.mem_of_getElem? hchild)

theorem undotted (place : List Nat) : ∀ key ∈ node.keysTo place, '.' ∉ key.toList := by
  induction place generalizing node with
  | nil =>
    obtain ⟨hkey, -, -⟩ := h
    exact List.forall_mem_singleton.mpr hkey
  | cons i place ih =>
    have hkey : '.' ∉ node.key.toList := by
      obtain ⟨hkey, -, -⟩ := h
      exact hkey
    refine List.forall_mem_cons.mpr ⟨hkey, ?_⟩
    cases hi : node.children[i]? with
    | none => simp [keysBelow, hi]
    | some child =>
      rw [keysBelow_cons hi]
      exact ih (h.child hi)

/-- Siblings differ in their keys, so that the first child with a key is the only one. -/
theorem takesFirst {place : List Nat} {found : ResponseNode}
    (hplace : node.at? place = some found) :
    node.TakesFirst place := by
  induction place generalizing node with
  | nil => trivial
  | cons i place ih =>
    obtain ⟨child, hi, hplace⟩ := at?_cons_eq_some_iff.mp hplace
    refine ⟨child, hi, fun j hj sibling hsibling hsame => ?_, ih (h.child hi) hplace⟩
    obtain ⟨-, hsiblings, -⟩ := h
    have hne := List.nodup_iff_getElem?_ne_getElem?.mp hsiblings j i hj
    have hlt : i < node.selectedKeys.length := by
      rw [selectedKeys, List.length_map]
      exact (List.getElem?_eq_some_iff.mp hi).1
    apply hne hlt
    rw [selectedKeys, List.getElem?_map, List.getElem?_map, hi, hsibling, Option.map_some, hsame]
    rfl

theorem resolve_pathTo {place : List Nat} {found : ResponseNode}
    (hplace : node.at? place = some found) : node.resolve (node.pathTo place) = some found :=
  resolve_eq_some_iff.mpr
    ⟨place, h.takesFirst hplace, hplace, (segments_pathTo (h.undotted place)).symm⟩

theorem pathTo_bijOn :
    Set.BijOn node.pathTo {place | (node.at? place).isSome}
      {path | (node.resolve path).isSome} := by
  refine ⟨fun place hplace => ?_, fun a ha b hb hsame => ?_, fun path hpath => ?_⟩
  · obtain ⟨found, hfound⟩ := Option.isSome_iff_exists.mp hplace
    exact Option.isSome_of_eq_some (h.resolve_pathTo hfound)
  · obtain ⟨x, hx⟩ := Option.isSome_iff_exists.mp ha
    obtain ⟨y, hy⟩ := Option.isSome_iff_exists.mp hb
    have hkeys := congrArg segments hsame
    rw [segments_pathTo (h.undotted a), segments_pathTo (h.undotted b)] at hkeys
    exact (h.takesFirst hx).unique (h.takesFirst hy) (List.cons.inj hkeys).2
  · obtain ⟨found, hfound⟩ := Option.isSome_iff_exists.mp hpath
    obtain ⟨place, -, hplace, hkeys⟩ := resolve_eq_some_iff.mp hfound
    refine ⟨place, Option.isSome_of_eq_some hplace, eq_of_segments_eq ?_⟩
    rw [segments_pathTo (h.undotted place), hkeys]

end Addressable

/-- Where no key has a dot in it and siblings differ in their keys, the texts that are resolved are
the paths of the nodes, each node has a path of its own, and its path is resolved to it. In any tree
a path is resolved to what is reached over first children, beginning with the outermost node, whose
keys are its segments; and a path that goes on is resolved from where its first part is. -/
theorem paths_address_nodes (root : ResponseNode) :
    (root.Addressable →
      Set.BijOn root.pathTo {place | (root.at? place).isSome} {path | (root.resolve path).isSome} ∧
      ∀ place node, root.at? place = some node → root.resolve (root.pathTo place) = some node) ∧
    (∀ path node, root.resolve path = some node →
      (segments path).getLast? = some node.key) ∧
    (∀ path node, root.resolve path = some node ↔
      ∃ place, root.TakesFirst place ∧ root.at? place = some node ∧
        root.keysTo place = segments path) ∧
    ∀ p q, root.resolve (p ++ "." ++ q) = (root.resolve p).bind (·.descend (segments q)) := by
  refine ⟨fun h => ⟨h.pathTo_bijOn, fun place node => h.resolve_pathTo⟩, fun path node hpath => ?_,
    fun path node => resolve_eq_some_iff, root.resolve_append_dot⟩
  obtain ⟨place, -, hplace, hkeys⟩ := resolve_eq_some_iff.mp hpath
  rw [← hkeys]
  exact getLast?_keysTo hplace

/-- A key that stands at two depths, and an empty one. -/
def gridAnswer : ResponseNode :=
  .group "rg" [.group "mcg" [.leaf "0" none, .leaf "" (some (.text "x"))], .leaf "0" none]

theorem addressable_gridAnswer : gridAnswer.Addressable := by
  have hleaf : ∀ (key : String) value, '.' ∉ key.toList → (leaf key value).Addressable :=
    fun key value hkey => .intro hkey List.nodup_nil nofun
  have hgroup : (group "mcg" [.leaf "0" none, .leaf "" (some (.text "x"))]).Addressable := by
    refine .intro (by decide) (by decide) (List.forall_mem_cons.mpr ⟨?_, ?_⟩)
    · exact hleaf "0" none (by decide)
    · exact List.forall_mem_singleton.mpr (hleaf "" _ (by decide))
  refine .intro (by decide) (by decide) (List.forall_mem_cons.mpr ⟨hgroup, ?_⟩)
  exact List.forall_mem_singleton.mpr (hleaf "0" none (by decide))

/-- The empty key is the last segment of a path that ends with a dot. -/
theorem grid_paths_resolved :
    gridAnswer.Addressable ∧ gridAnswer.pathTo [0, 1] = "rg.mcg." ∧
      gridAnswer.resolve "rg.mcg." = some (.leaf "" (some (.text "x"))) ∧
      gridAnswer.resolve "rg.0" = some (.leaf "0" none) ∧ gridAnswer.pathTo [1] = "rg.0" := by
  obtain ⟨hresolve, -, -, -⟩ := paths_address_nodes gridAnswer
  obtain ⟨-, hat⟩ := hresolve addressable_gridAnswer
  have hempty : gridAnswer.pathTo [0, 1] = "rg.mcg." := by decide
  have hzero : gridAnswer.pathTo [1] = "rg.0" := by decide
  refine ⟨addressable_gridAnswer, hempty, ?_, ?_, hzero⟩
  · rw [← hempty]
    exact hat [0, 1] _ rfl
  · rw [← hzero]
    exact hat [1] _ rfl

end Questionnaire.ResponseNode
