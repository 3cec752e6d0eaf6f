import Questionnaire.Proofs.Drafts
import Questionnaire.Proofs.Ordered

/-! A survey document is read again from what it is written as. -/
namespace Questionnaire.Document

section
variable {ε α β δ : Type}

/-- All that a reader gives is read again from what it is written as. -/
def Rereads (read : Json → Except ε α) (write : α → Json) : Prop :=
  ∀ j a, read j = .ok a → read (write a) = .ok a

theorem readNat_nat {bound n : Nat} (expected : Expected) (h : n < bound) :
    readNat bound expected (.nat n) = .ok n := by
  have hn : (0 : Int) ≤ n ∧ (n : Int) < bound := by omega
  exact if_pos hn

theorem rereads_nat (bound : Nat) (expected : Expected) :
    Rereads (readNat bound expected) .nat := by
  intro j n h
  unfold readNat at h
  split at h
  · next i =>
    split at h
    · obtain rfl : i.toNat = n := Except.ok.inj h
      exact readNat_nat expected (by omega)
    · cases h
  · cases h

theorem Rereads.list {read : Json → Except ShapeFault α} {write : α → Json}
    (h : Rereads read write) : Rereads (readList read) fun items => .array (items.map write) := by
  intro j items hj
  cases j with
  | array js =>
    have hitems : ∀ a ∈ items, read (write a) = .ok a := forall_of_mapM_eq_ok (h _ _) hj
    clear hj
    show (items.map write).mapM read = .ok items
    induction items with
    | nil => rfl
    | cons a rest ih =>
      obtain ⟨hfirst, hrest⟩ := List.forall_mem_cons.mp hitems
      rw [List.map_cons, List.mapM_cons, hfirst, ih hrest]
      rfl
  | _ => cases hj

/-- What is read from a part, or given without one, is read again. -/
theorem Rereads.of_elim {read : Json → Except ε α} {write : α → Json} (h : Rereads read write)
    {absent : α} (habsent : read (write absent) = .ok absent) {part : Option β} {json : β → Json}
    {a : α} (ha : part.elim (.ok absent) (fun b => read (json b)) = .ok a) :
    read (write a) = .ok a := by
  cases part with
  | none =>
    obtain rfl := Except.ok.inj ha
    exact habsent
  | some b => exact h _ _ ha

/-- A value that is written only if it is there. -/
theorem readOptional_of_elim {part : Option β} {json : β → Json} {value : Option Json}
    (h : part.elim (.ok none) (fun b => readOptional readAny (json b)) = .ok value) :
    ∀ j ∈ value, readOptional readAny j = .ok value := by
  intro j hj
  cases part with
  | none =>
    obtain rfl := Except.ok.inj h
    cases hj
  | some b =>
    have hb : readOptional readAny (json b) = .ok value := h
    cases hjson : json b with
    | null =>
      rw [hjson] at hb
      obtain rfl := Except.ok.inj hb
      cases hj
    | _ =>
      have hvalue := hb
      rw [hjson] at hvalue
      obtain rfl := Except.ok.inj hvalue
      obtain rfl := Option.some.inj hj
      rfl

/-- The parts fill one draft into another. -/
def Fills (put : δ → String → β → Except ε δ) (parts : List (String × β)) (d d' : δ) : Prop :=
  parts.foldlM (fun d (name, b) => put d name b) d = .ok d'

section
variable {put : δ → String → β → Except ε δ} {d d' d'' : δ}

theorem Fills.nil : Fills put [] d d := rfl

theorem Fills.cons {name : String} {b : β} {parts : List (String × β)}
    (h : put d name b = .ok d') (hparts : Fills put parts d' d'') :
    Fills put ((name, b) :: parts) d d'' := by
  unfold Fills at hparts ⊢
  rw [List.foldlM_cons]
  show put d name b >>= _ = _
  rw [h]
  exact hparts

theorem Fills.append {parts more : List (String × β)} (middle : δ) (h : Fills put parts d middle)
    (hmore : Fills put more middle d'') : Fills put (parts ++ more) d d'' := by
  unfold Fills at h hmore ⊢
  rw [List.foldlM_append, h]
  exact hmore

end

theorem Fills.map {put : δ → String → β → Except ε δ} {f : α → β} {members : List (String × α)}
    {d d' : δ} (h : Fills (fun d name a => put d name (f a)) members d d') :
    Fills put (members.map fun (name, a) => (name, f a)) d d' := by
  unfold Fills at h ⊢
  rw [List.foldlM_map]
  exact h

theorem Fills.optionalMember {put : δ → String → Json → Except ε δ} {name : String}
    {value : Option Json} {d d' : δ} (hnone : value = none → d = d')
    (hsome : ∀ j ∈ value, put d name j = .ok d') : Fills put (optionalMember name value) d d' := by
  cases value with
  | none =>
    obtain rfl := hnone rfl
    exact .nil
  | some j => exact .cons (hsome j rfl) .nil

/-- A raw value is written only if it is there, and read into its place. -/
theorem Fills.optionalJson {put : δ → String → Json → Except ShapeFault δ} {name : String}
    {value : Option Json} (place : Option Json → δ)
    (hput : ∀ j, put (place none) name j = do return place (← readOptional readAny j))
    (hread : ∀ j ∈ value, readOptional readAny j = .ok value) :
    Fills put (Document.optionalMember name value) (place none) (place value) := by
  apply Fills.optionalMember
  · intro hnone
    rw [hnone]
  · intro j hj
    rw [hput, hread j hj]
    rfl

theorem Fills.listMember {put : δ → String → Json → Except ε δ} {name : String} {items : List Json}
    {d d' : δ} (hnil : items = [] → d = d') (hcons : put d name (.array items) = .ok d') :
    Fills put (listMember name items) d d' := by
  cases items with
  | nil =>
    obtain rfl := hnil rfl
    exact .nil
  | cons j rest => exact .cons hcons .nil

end

/-- The parts of a record without their names. -/
def Parts.elements {β : Type} : Parts β → List β
  | .named members => members.map Prod.snd
  | .positional items => items

theorem RecordForm.mem_elements_of_last? {β : Type} {form : RecordForm} {name : String}
    {parts : Parts β} {b : β} (h : last? name (form.namedParts parts) = some b) :
    b ∈ parts.elements := by
  have hmem := mem_of_last?_eq_some h
  cases parts with
  | named members => exact List.mem_map_of_mem hmem
  | positional items => exact (List.of_mem_zip hmem).2

theorem TaggedForm.mem_of_split {β : Type} {form : TaggedForm} {insideTagged : Bool}
    {json : β → Json} {parts rest : Parts β} {index : Nat} {b : β}
    (h : form.split insideTagged json parts = .ok (index, rest)) (hb : b ∈ rest.elements) :
    b ∈ parts.elements := by
  unfold split at h
  split at h
  · split at h
    · obtain ⟨_, -, h⟩ := exists_of_bind_eq_ok h
      obtain ⟨-, rfl⟩ := Prod.mk.inj (Except.ok.inj h)
      exact hb
    · cases h
  · obtain ⟨_, -, h⟩ := exists_of_bind_eq_ok h
    obtain ⟨-, rfl⟩ := Prod.mk.inj (Except.ok.inj h)
    exact List.mem_cons_of_mem _ hb
  · cases h

/-- The number of items that a group draws was read from its part. -/
theorem readSize_of_read {parts : Parts Json} {n : Nat}
    (h : subsetForm.read none putCount finishCount parts = .ok (.randomSubset n)) :
    readSize (.nat n) = .ok n := by
  obtain ⟨draft, hdraft, hfinish⟩ := RecordForm.exists_draft h
  have hcount := count_of_foldlM hdraft
  unfold finishCount at hfinish
  split at hfinish
  · next m =>
    obtain rfl := Selection.randomSubset.inj (Except.ok.inj hfinish)
    obtain ⟨j, -, hj⟩ := exists_of_elim_eq_ok_some hcount
    exact rereads_nat UInt64.size .size _ _ hj
  · cases hfinish

theorem readSelection_subset {j : Json} {n : Nat} (h : readSize j = .ok n) :
    readSelection (.object [("method", .string "randomSubset"), ("n", j)]) =
      .ok (.randomSubset n) := by
  have hfills : Fills putCount [("method", .string "randomSubset"), ("n", j)] none (some n) := by
    apply Fills.cons rfl
    apply Fills.cons _ .nil
    simp only [putCount, h]
    rfl
  show subsetForm.read none putCount finishCount (.named _) = _
  exact RecordForm.read_eq_ok subsetForm hfills rfl

theorem rereads_selection : Rereads readSelection selectionToJson := by
  intro j selection h
  cases selection with
  | sequential => rfl
  | randomSubset n =>
    have hsize : readSize (.nat n) = .ok n := by
      unfold readSelection at h
      split at h
      · cases h
      · obtain ⟨⟨index, parts⟩, -, h⟩ := exists_of_bind_eq_ok h
        split at h
        · cases h
        · cases h
        · exact readSize_of_read h
    exact readSelection_subset hsize

theorem Rule.rereads : Rereads ofJson toJson := fun _ _ _ => rfl

namespace Choice

/-- What an option is written with, in the order of the names. -/
def members (c : Choice) : List (String × Json) :=
  optionalMember "disabled" c.disabled ++
  (optionalMember "displayCondition" c.displayCondition ++
  [("key", .string c.key), ("role", .string c.role)])

theorem toJson_eq_object (c : Choice) : c.toJson = .object c.members := by
  obtain ⟨key, role, display, disabled⟩ := c
  cases display <;> cases disabled <;> rfl

theorem fills {c : Choice}
    (hdisplay : ∀ j ∈ c.displayCondition, readOptional readAny j = .ok c.displayCondition)
    (hdisabled : ∀ j ∈ c.disabled, readOptional readAny j = .ok c.disabled) :
    Fills Draft.put c.members ⟨none, OptionRole.option.name, none, none⟩
      ⟨some c.key, c.role, c.displayCondition, c.disabled⟩ := by
  apply Fills.append ⟨none, OptionRole.option.name, none, c.disabled⟩
  · exact .optionalJson (Draft.mk none OptionRole.option.name none ·) (fun _ => rfl) hdisabled
  apply Fills.append ⟨none, OptionRole.option.name, c.displayCondition, c.disabled⟩
  · exact .optionalJson (Draft.mk none OptionRole.option.name · c.disabled) (fun _ => rfl) hdisplay
  exact .cons rfl (.cons rfl .nil)

theorem rereads : Rereads ofJson toJson := by
  intro j c h
  have hread := isReadFrom_of_ofJson h
  have hfills := fills (readOptional_of_elim hread.displayCondition_eq)
    (readOptional_of_elim hread.disabled_eq)
  rw [toJson_eq_object]
  exact RecordForm.read_eq_ok form hfills rfl

end Choice

namespace Item

/-- An item that was read was read as one of the three kinds, from parts of the JSON value. -/
theorem exists_parts_of_ofJson {inner : Bool} {j : Json} {d : Item} (h : ofJson inner j = .ok d) :
    ∃ parts : Parts Part, (∀ p ∈ parts.elements, ∃ k, p = part k) ∧
      (groupForm.read .empty GroupDraft.put GroupDraft.finish parts = .ok d ∨
        questionForm.read .empty QuestionDraft.put QuestionDraft.finish parts = .ok d ∨
        pageBreakForm.read ⟨none, none⟩ PageBreakDraft.put PageBreakDraft.finish parts =
          .ok d) := by
  have hall : ∃ parts : Parts Part, ofParts inner parts = .ok d ∧
      ∀ p ∈ parts.elements, ∃ k, p = part k := by
    cases j with
    | object members =>
      refine ⟨_, h, ?_⟩
      rw [memberParts_eq]
      simp only [Parts.elements, List.map_map, List.mem_map]
      rintro p ⟨member, -, rfl⟩
      exact ⟨_, rfl⟩
    | array items =>
      refine ⟨_, h, ?_⟩
      rw [itemParts_eq]
      simp only [Parts.elements, List.mem_map]
      rintro p ⟨k, -, rfl⟩
      exact ⟨_, rfl⟩
    | _ => cases h
  obtain ⟨parts, h, hparts⟩ := hall
  obtain ⟨variant, hsplit, h⟩ := exists_of_bind_eq_ok h
  split at h
  all_goals refine ⟨_, fun p hp => hparts p (TaggedForm.mem_of_split hsplit hp), ?_⟩
  · exact .inl h
  · exact .inr (.inl h)
  · exact .inr (.inr h)

theorem GroupDraft.IsReadFrom.exists_items {parts : Parts Part} {draft : GroupDraft}
    (h : draft.IsReadFrom (groupForm.namedParts parts))
    (hparts : ∀ p ∈ parts.elements, ∃ k, p = part k) :
    ∃ js, listOfJson js = .ok draft.items := by
  have hitems := h.items_eq
  cases hp : last? "items" (groupForm.namedParts parts) with
  | none =>
    rw [hp] at hitems
    exact ⟨[], hitems⟩
  | some p =>
    rw [hp] at hitems
    obtain ⟨k, rfl⟩ := hparts p (RecordForm.mem_elements_of_last? hp)
    obtain ⟨js, -, hjs⟩ := exists_of_part_snd hitems
    exact ⟨js, hjs⟩

/-- What an item is written with, in the order of the names. -/
def members : Item → List (String × Json)
  | group key version condition rules selection items =>
    optionalMember "condition" condition ++
    ([("items", .array (listToJson items)), ("key", .string key), ("kind", .string "group"),
      ("selection", selectionToJson selection)] ++
    (listMember "validations" (rules.map Rule.toJson) ++ [("version", .nat version)]))
  | question key version condition rules role options =>
    optionalMember "condition" condition ++
    ([("key", .string key), ("kind", .string "question")] ++
    (listMember "options" (options.map Choice.toJson) ++
    ([("role", .string role)] ++
    (listMember "validations" (rules.map Rule.toJson) ++ [("version", .nat version)]))))
  | pageBreak key condition =>
    optionalMember "condition" condition ++
    [("key", .string key), ("kind", .string "pageBreak")]

theorem toJson_eq_object (d : Item) : d.toJson = .object d.members := by
  cases d with
  | group key version condition rules selection items =>
    cases condition <;> cases rules <;> rfl
  | question key version condition rules role options =>
    cases condition <;> cases rules <;> cases options <;> rfl
  | pageBreak key condition => cases condition <;> rfl

section
variable {parts : List (String × Part)} {key : String} {version : Nat} {condition : Option Json}
  {rules : List Rule}

theorem fills_group {selection : Selection} {items : List Item}
    (h : (⟨some key, version, condition, rules, selection, items⟩ : GroupDraft).IsReadFrom parts)
    (hitems : listOfJson (listToJson items) = .ok items) :
    Fills (fun d name j => GroupDraft.put d name (part j))
      (group key version condition rules selection items).members
      .empty ⟨some key, version, condition, rules, selection, items⟩ := by
  apply Fills.append ⟨none, 0, condition, [], .sequential, []⟩
  · exact .optionalJson (GroupDraft.mk none 0 · [] .sequential []) (fun j => by cases j <;> rfl)
      (readOptional_of_elim h.condition_eq)
  apply Fills.append ⟨some key, 0, condition, [], selection, items⟩
  · have hput : GroupDraft.put ⟨none, 0, condition, [], .sequential, []⟩ "items"
        (part (.array (listToJson items))) =
        .ok ⟨none, 0, condition, [], .sequential, items⟩ := by
      simp only [GroupDraft.put, part, hitems]
      rfl
    refine Fills.cons hput ?_
    apply Fills.cons rfl
    apply Fills.cons rfl
    apply Fills.cons _ .nil
    simp only [GroupDraft.put, part_fst, rereads_selection.of_elim rfl h.selection_eq]
    rfl
  apply Fills.append ⟨some key, 0, condition, rules, selection, items⟩
  · apply Fills.listMember
    · intro hnil
      rw [List.map_eq_nil_iff.mp hnil]
    · simp only [GroupDraft.put, part_fst, Rule.rereads.list.of_elim rfl h.rules_eq]
      rfl
  have habsent := readNat_nat .word32 (show 0 < UInt32.size by decide)
  have hversion := (rereads_nat _ _).of_elim habsent h.version_eq
  apply Fills.cons _ .nil
  simp only [GroupDraft.put, part_fst, readWord32, hversion]
  rfl

theorem fills_question {role : String} {options : List Choice}
    (h : (⟨some key, version, condition, rules, some role, options⟩ :
      QuestionDraft).IsReadFrom parts) :
    Fills (fun d name j => QuestionDraft.put d name (part j))
      (question key version condition rules role options).members
      .empty ⟨some key, version, condition, rules, some role, options⟩ := by
  apply Fills.append ⟨none, 0, condition, [], none, []⟩
  · exact .optionalJson (QuestionDraft.mk none 0 · [] none []) (fun j => by cases j <;> rfl)
      (readOptional_of_elim h.condition_eq)
  apply Fills.append ⟨some key, 0, condition, [], none, []⟩
  · exact .cons rfl (.cons rfl .nil)
  apply Fills.append ⟨some key, 0, condition, [], none, options⟩
  · apply Fills.listMember
    · intro hnil
      rw [List.map_eq_nil_iff.mp hnil]
    · simp only [QuestionDraft.put, part_fst, Choice.rereads.list.of_elim rfl h.options_eq]
      rfl
  apply Fills.append ⟨some key, 0, condition, [], some role, options⟩
  · exact .cons rfl .nil
  apply Fills.append ⟨some key, 0, condition, rules, some role, options⟩
  · apply Fills.listMember
    · intro hnil
      rw [List.map_eq_nil_iff.mp hnil]
    · simp only [QuestionDraft.put, part_fst, Rule.rereads.list.of_elim rfl h.rules_eq]
      rfl
  have habsent := readNat_nat .word32 (show 0 < UInt32.size by decide)
  have hversion := (rereads_nat _ _).of_elim habsent h.version_eq
  apply Fills.cons _ .nil
  simp only [QuestionDraft.put, part_fst, readWord32, hversion]
  rfl

theorem fills_pageBreak (h : (⟨some key, condition⟩ : PageBreakDraft).IsReadFrom parts) :
    Fills (fun d name j => PageBreakDraft.put d name (part j)) (pageBreak key condition).members
      ⟨none, none⟩ ⟨some key, condition⟩ := by
  apply Fills.append ⟨none, condition⟩
  · exact .optionalJson (PageBreakDraft.mk none ·) (fun j => by cases j <;> rfl)
      (readOptional_of_elim h.condition_eq)
  exact .cons rfl (.cons rfl .nil)

end

mutual

/-- By induction on the item: its own members fill the draft that it was finished from, and the
children of a group are read again. -/
theorem ofJson_toJson (d : Item) {inner : Bool} {j : Json} (h : ofJson inner j = .ok d)
    (again : Bool) : ofJson again d.toJson = .ok d := by
  obtain ⟨parts, hparts, hgroup | hquestion | hbreak⟩ := exists_parts_of_ofJson h
  · obtain ⟨key, version, condition, rules, selection, items, rfl, hread⟩ :=
      exists_of_groupForm_read hgroup
    obtain ⟨js, hjs⟩ := hread.exists_items hparts
    have hkind : Fields.get? "kind" (group key version condition rules selection items).members =
        some (.string "group") := by cases condition <;> rfl
    have hfills := fills_group hread (listOfJson_listToJson items hjs)
    rw [toJson_eq_object, ofJson, ofParts, split_named hkind rfl, memberParts_eq]
    exact RecordForm.read_eq_ok groupForm hfills.map rfl
  · obtain ⟨key, version, condition, rules, role, options, rfl, hread⟩ :=
      exists_of_questionForm_read hquestion
    have hkind : Fields.get? "kind" (question key version condition rules role options).members =
        some (.string "question") := by cases condition <;> rfl
    rw [toJson_eq_object, ofJson, ofParts, split_named hkind rfl, memberParts_eq]
    exact RecordForm.read_eq_ok questionForm (fills_question hread).map rfl
  · obtain ⟨key, condition, rfl, hread⟩ := exists_of_pageBreakForm_read hbreak
    have hkind : Fields.get? "kind" (pageBreak key condition).members =
        some (.string "pageBreak") := by cases condition <;> rfl
    rw [toJson_eq_object, ofJson, ofParts, split_named hkind rfl, memberParts_eq]
    exact RecordForm.read_eq_ok pageBreakForm (fills_pageBreak hread).map rfl

theorem listOfJson_listToJson (ds : List Item) {js : List Json} (h : listOfJson js = .ok ds) :
    listOfJson (listToJson ds) = .ok ds := by
  cases ds with
  | nil => rfl
  | cons d rest =>
    cases js with
    | nil => cases h
    | cons j js =>
      obtain ⟨first, hfirst, h⟩ := exists_of_bind_eq_ok h
      obtain ⟨others, hothers, h⟩ := exists_of_bind_eq_ok h
      obtain ⟨rfl, rfl⟩ := List.cons.inj (Except.ok.inj h)
      rw [listToJson, listOfJson, ofJson_toJson first hfirst, listOfJson_listToJson others hothers]
      rfl

end

end Item

namespace Survey

theorem isSupported_of_check {members : List (String × Json)} {draft : Draft}
    (hmembers : Fields.Ascending members) (hcheck : check members = .ok ())
    (hread : draft.IsReadFrom members) :
    ∀ version ∈ draft.format, isSupported version = true := by
  intro version hversion
  obtain ⟨-, -, hsupported⟩ := check_eq_ok_iff.mp hcheck
  have hformat := hread.format_eq
  rw [Fields.last?_eq_get? hmembers, Option.mem_def.mp hversion] at hformat
  apply hsupported
  cases hj : Fields.get? "canvass" members with
  | none =>
    rw [hj] at hformat
    cases hformat
  | some j =>
    rw [hj] at hformat
    cases j with
    | string s =>
      obtain rfl := Option.some.inj (Except.ok.inj hformat)
      rfl
    | _ => cases hformat

/-- What a document is written with, in the order of the names. -/
def members (document : Survey) : List (String × Json) :=
  optionalMember "canvass" (document.format.map .string) ++
  [("id", .string document.id), ("root", document.root.toJson)]

theorem toJson_eq_object (document : Survey) : document.toJson = .object document.members := by
  obtain ⟨id, format, root⟩ := document
  cases format <;> rfl

theorem check_members {document : Survey}
    (h : ∀ version ∈ document.format, isSupported version = true) :
    check document.members = .ok () := by
  obtain ⟨id, format, root⟩ := document
  apply check_eq_ok_iff.mpr
  cases format with
  | none => exact ⟨rfl, rfl, nofun⟩
  | some version =>
    refine ⟨rfl, rfl, fun again hagain => ?_⟩
    obtain rfl := Json.string.inj (Option.some.inj hagain)
    exact h version rfl

theorem fills {document : Survey}
    (hroot : Item.ofJson false document.root.toJson = .ok document.root) :
    Fills Draft.put document.members ⟨none, none, none⟩
      ⟨some document.id, document.format, some document.root⟩ := by
  obtain ⟨id, format, root⟩ := document
  apply Fills.append ⟨none, format, none⟩
  · cases format with
    | none => exact .nil
    | some version => exact .cons rfl .nil
  apply Fills.cons rfl
  apply Fills.cons _ .nil
  simp only [Draft.put, hroot]
  rfl

/-- The members of an object stand in ascending order, so that the format is looked at where it is
read. -/
theorem ofJson_toJson {j : Json} {document : Survey} (hj : j.Ordered)
    (h : ofJson j = .ok document) : ofJson document.toJson = .ok document := by
  cases j with
  | object members =>
    obtain ⟨⟨⟩, hcheck, h⟩ := exists_of_bind_eq_ok h
    split at h
    · next read hread =>
      obtain rfl := Except.ok.inj h
      have hdraft := isReadFrom_of_readJson hread
      have hagain := check_members (isSupported_of_check hj.1 hcheck hdraft)
      obtain ⟨written, -, hroot⟩ := exists_of_elim_eq_ok_some hdraft.root_eq
      have hfills := fills (Item.ofJson_toJson read.root hroot false)
      have hread : form.read ⟨none, none, none⟩ Draft.put Draft.finish (.named read.members) =
          .ok read := RecordForm.read_eq_ok form hfills rfl
      rw [toJson_eq_object]
      simp only [ofJson, hagain, RecordForm.readJson, parts?, hread, bind, Except.bind, pure,
        Except.pure]
    · cases h
  | _ => cases h

end Survey

end Questionnaire.Document
