import CobolSymbols.Proofs.SourceOrder
import Mathlib.Order.Bounds.Basic

/-!
# Level numbers nest data entries

A data entry has no end: it stays open until an entry comes whose closing level is not above its own. So the entries that
are open before entry number `i` are those whose level lies below the closing level of each entry in between, and the
parent of entry `i` is the last one of them whose level also lies below its own closing level. With none of them the
entry lies in the section itself. From the section inwards the levels of open entries grow.
-/

set_option autoImplicit false

namespace CobolSymbols

open Build List

/-- The least level that an entry closes: levels 1 and 77 close everything, and level 66 all but level 1. -/
def closingLevel (level : Level) : Level :=
  if level = 1 ∨ level = independentLevel then 0 else if level = renamesLevel then 2 else level

theorem closingLevel_le (level : Level) : closingLevel level ≤ level := by
  unfold closingLevel
  split
  · exact UInt8.le_iff_toNat_le.mpr (Nat.zero_le _)
  · split
    · rename_i heq
      rw [heq]
      decide
    · exact UInt8.le_refl level

theorem Build.bound_any (level other : Level) : (bound level).any (other < ·) = decide (other < closingLevel level) := by
  unfold bound closingLevel
  split
  · simp [UInt8.lt_iff_toNat_lt]
  · split <;> rfl

section Levels

variable (level : Nat → Level) {i j : Nat}

/-- The entries that are open before an entry, innermost first. -/
def openBefore : Nat → List Nat
  | 0 => []
  | i + 1 => i :: (openBefore i).filter fun j => level j < closingLevel (level i)

/-- An entry is open before a later one when no entry in between closes it. -/
theorem mem_openBefore : j ∈ openBefore level i ↔ j < i ∧ ∀ k, j < k → k < i → level j < closingLevel (level k) := by
  induction i with
  | zero => simp [openBefore]
  | succ i ih =>
    rw [openBefore, mem_cons, mem_filter, ih, decide_eq_true_iff]
    constructor
    · rintro (rfl | ⟨⟨hlt, hbetween⟩, hlast⟩)
      · exact ⟨Nat.lt_succ_self j, fun k hjk hki => absurd hki (by omega)⟩
      · refine ⟨by omega, fun k hjk hki => ?_⟩
        rcases Nat.lt_succ_iff_lt_or_eq.mp hki with hk | rfl
        · exact hbetween k hjk hk
        · exact hlast
    · rintro ⟨hlt, hbetween⟩
      rcases Nat.lt_succ_iff_lt_or_eq.mp hlt with hj | rfl
      · exact .inr ⟨⟨hj, fun k hjk hki => hbetween k hjk (by omega)⟩, hbetween i hj (Nat.lt_succ_self i)⟩
      · exact .inl rfl

/-- Further inside stand later entries of deeper levels. -/
theorem pairwise_openBefore (i : Nat) : (openBefore level i).Pairwise fun j k => k < j ∧ level k < level j := by
  induction i with
  | zero => exact List.Pairwise.nil
  | succ i ih =>
    rw [openBefore, pairwise_cons]
    refine ⟨fun k hk => ?_, ih.filter _⟩
    rw [mem_filter, decide_eq_true_iff] at hk
    exact ⟨((mem_openBefore level).mp hk.1).1, UInt8.lt_of_lt_of_le hk.2 (closingLevel_le (level i))⟩

/-- Closing from the innermost entry outwards closes every open entry of the closing level or a deeper one. -/
theorem dropWhile_openBefore (i : Nat) (bound : Level) :
    (openBefore level i).dropWhile (fun j => bound ≤ level j) = (openBefore level i).filter fun j => level j < bound := by
  have key : ∀ open' : List Nat, open'.Pairwise (fun j k => k < j ∧ level k < level j) →
      open'.dropWhile (fun j => bound ≤ level j) = open'.filter fun j => level j < bound := by
    intro open' hpairwise
    induction open' with
    | nil => rfl
    | cons j rest ih =>
      obtain ⟨hfirst, hrest⟩ := pairwise_cons.mp hpairwise
      by_cases hj : level j < bound
      · have hall : ∀ k ∈ rest, decide (level k < bound) = true := fun k hk =>
          decide_eq_true (UInt8.lt_trans (hfirst k hk).2 hj)
        rw [dropWhile_cons_of_neg (by simpa using hj), filter_cons_of_pos (by simpa using hj),
          filter_eq_self.mpr hall]
      · rw [dropWhile_cons_of_pos (by simpa using hj), filter_cons_of_neg (by simpa using hj), ih hrest]
  exact key _ (pairwise_openBefore level i)

/-- The entries in which an entry lies directly or indirectly. -/
def enclosing (i : Nat) : Set Nat :=
  { j | j < i ∧ level j < closingLevel (level i) ∧ ∀ k, j < k → k < i → level j < closingLevel (level k) }

theorem mem_enclosing :
    j ∈ enclosing level i ↔ j ∈ (openBefore level i).filter fun j => level j < closingLevel (level i) := by
  rw [mem_filter, mem_openBefore, decide_eq_true_iff]
  constructor
  · exact fun ⟨hlt, hlevel, hbetween⟩ => ⟨⟨hlt, hbetween⟩, hlevel⟩
  · exact fun ⟨⟨hlt, hbetween⟩, hlevel⟩ => ⟨hlt, hlevel, hbetween⟩

/-- The innermost open entry that stays open is the last of those that enclose the new one. -/
theorem head?_of_isGreatest (h : IsGreatest (enclosing level i) j) :
    ((openBefore level i).filter fun j => level j < closingLevel (level i)).head? = some j := by
  have hmem := (mem_enclosing level).mp h.1
  have hpairwise := (pairwise_openBefore level i).filter fun j => level j < closingLevel (level i)
  cases hopen : (openBefore level i).filter fun j => level j < closingLevel (level i) with
  | nil =>
    rw [hopen] at hmem
    cases hmem
  | cons first rest =>
    rw [hopen] at hmem hpairwise
    have hfirst : first ≤ j := h.2 ((mem_enclosing level).mpr (hopen ▸ mem_cons_self))
    rcases mem_cons.mp hmem with rfl | hrest
    · rfl
    · have hlt := ((pairwise_cons.mp hpairwise).1 j hrest).1
      omega

end Levels

/-- The number of an open node with its level, when it is a data entry. -/
def OpenNode.level (o : OpenNode) : NodeId × Option Level := (o.node.id, o.node.definition?.map (·.level))

/-- The numbers of the open nodes with their levels, innermost first. -/
def Path.levels (p : Path) : List (NodeId × Option Level) := (p.current :: p.above).map OpenNode.level

namespace Build

variable {b : Build} {outer : List (NodeId × Option Level)} {container : NodeId} {event : Event}

theorem exitDefinition_levels {first second : NodeId × Option Level}
    (h : b.path.levels = first :: second :: outer) : b.exitDefinition.path.levels = second :: outer := by
  unfold exitDefinition Path.pop?
  unfold Path.levels at h
  cases habove : b.path.above with
  | nil => simp [habove] at h
  | cons parent above =>
    rw [habove] at h
    obtain ⟨_, hrest⟩ := List.cons.inj h
    simp only
    split <;> exact hrest

/-- Open entries with their levels, as they stand in a section. -/
def opened (entries : List (NodeId × Level)) : List (NodeId × Option Level) :=
  entries.map fun entry => (entry.1, some entry.2)

theorem closeWithin_levels (level : Level) (entries : List (NodeId × Level)) (steps : Nat) (b : Build)
    (hsteps : entries.length ≤ steps) (h : b.path.levels = opened entries ++ (container, none) :: outer) :
    (closeWithin (bound level) steps b).path.levels =
      opened (entries.dropWhile fun entry => closingLevel level ≤ entry.2) ++ (container, none) :: outer := by
  induction entries generalizing steps b with
  | nil =>
    have hnone : b.current.definition? = none := Option.map_eq_none_iff.mp (congrArg Prod.snd (List.cons.inj h).1)
    have hsame : closeWithin (bound level) steps b = b := by
      cases steps with
      | zero => rfl
      | succ steps => simp [closeWithin, hnone]
    rw [hsame]
    exact h
  | cons entry rest ih =>
    obtain ⟨steps, rfl⟩ : ∃ fewer, steps = fewer + 1 := ⟨steps - 1, by rw [length_cons] at hsteps; omega⟩
    obtain ⟨definition, hdef, hlevel⟩ := Option.map_eq_some_iff.mp (congrArg Prod.snd (List.cons.inj h).1)
    have hdef : b.current.definition? = some definition := hdef
    simp only [closeWithin, hdef, bound_any, decide_eq_true_iff, hlevel]
    by_cases hlt : entry.2 < closingLevel level
    · rw [if_pos hlt, dropWhile_cons_of_neg (by simpa using hlt)]
      exact h
    · rw [if_neg hlt, dropWhile_cons_of_pos (by simpa using hlt)]
      refine ih steps b.exitDefinition (by rw [length_cons] at hsteps; omega) ?_
      cases rest with
      | nil | cons second others => exact exitDefinition_levels h

theorem closeDefinitions_levels (level : Level) {entries : List (NodeId × Level)}
    (h : b.path.levels = opened entries ++ (container, none) :: outer) :
    (b.closeDefinitions (bound level)).path.levels =
      opened (entries.dropWhile fun entry => closingLevel level ≤ entry.2) ++ (container, none) :: outer := by
  refine closeWithin_levels level entries _ b ?_ h
  have hlength := congrArg List.length h
  simp only [Path.levels, opened, length_map, length_append, length_cons] at hlength
  omega

theorem addIndexes_levels (entry : DataEntry) : (b.addIndexes entry).path.levels = b.path.levels :=
  addIndexes_keep (P := fun b' => b'.path.levels = b.path.levels) (fun _ => id) id rfl entry

/-- What adds nothing keeps the sites. -/
theorem Adds.sites_eq {b' : Build} (h : Adds b b' []) : b'.path.sites Node.label = b.path.sites Node.label := by
  refine (h.sites.eq_of_length ?_).symm
  have hlength := congrArg List.length h.labels
  rw [Path.labels, Path.labels, ← Path.sites_nodes, ← Path.sites_nodes] at hlength
  simpa [numbered] using hlength.symm

theorem step_entry_sites {level : Level} (h : event.level? = some level) : ∃ kind,
    b.path.sites Node.label ++ [((b.nodeCount, kind), (b.closeDefinitions (bound level)).path.line Node.label)] <+:
      (b.step event).path.sites Node.label := by
  obtain ⟨kind, entry, _, _, _, heq⟩ := b.step_entry h
  have hclosed := (b.closeDefinitions_acts (bound level)).adds
  have hsites := (addIndexes_acts ((b.closeDefinitions (bound level)).openEntry kind) entry).adds.sites
  rw [← heq, openEntry, Build.enter, Path.enter_sites, hclosed.sites_eq,
    show (newNode _ kind).label = (b.nodeCount, kind) from congrArg (·, kind) hclosed.count] at hsites
  exact ⟨kind, hsites⟩

end Build

/-- The level of an entry of a list. -/
def levelOf (entries : List Event) (i : Nat) : Level := (entries[i]?.bind Event.level?).getD 0

namespace Build

variable {b : Build} {container : NodeId} {outer : List (NodeId × Option Level)} {entries : List Event} {i : Nat}

theorem steps_take_succ (hi : i < entries.length) :
    b.steps (entries.take (i + 1)) = (b.steps (entries.take i)).step entries[i] := by
  rw [take_succ_eq_append_getElem hi, steps, foldl_append]
  rfl

theorem level?_eq_levelOf (hentries : ∀ event ∈ entries, event.level?.isSome = true) (hi : i < entries.length) :
    entries[i].level? = some (levelOf entries i) := by
  obtain ⟨level, hlevel⟩ := Option.isSome_iff_exists.mp (hentries entries[i] (getElem_mem hi))
  simp [levelOf, hi, hlevel]

/-- The open entries, with the numbers of their nodes. -/
def openNodes (b : Build) (entries : List Event) (open' : List Nat) : List (NodeId × Level) :=
  open'.map fun j => ((b.steps (entries.take j)).nodeCount, levelOf entries j)

theorem dropWhile_openNodes (i : Nat) (bound : Level) :
    (openNodes b entries (openBefore (levelOf entries) i)).dropWhile (fun entry => bound ≤ entry.2) =
      openNodes b entries ((openBefore (levelOf entries) i).filter fun j => levelOf entries j < bound) := by
  unfold openNodes
  rw [dropWhile_map, ← dropWhile_openBefore]
  rfl

variable (hb : b.path.levels = (container, none) :: outer) (hentries : ∀ event ∈ entries, event.level?.isSome = true)
include hb hentries

/-- While entries are read in a section, exactly those are open that no later one has closed. -/
theorem steps_take_levels (hi : i ≤ entries.length) :
    (b.steps (entries.take i)).path.levels =
      opened (openNodes b entries (openBefore (levelOf entries) i)) ++ (container, none) :: outer := by
  induction i with
  | zero => exact hb
  | succ i ih =>
    have hlevel := level?_eq_levelOf hentries hi
    obtain ⟨kind, _, _, hkind, _, heq⟩ := (b.steps (entries.take i)).step_entry hlevel
    have hclosed := closeDefinitions_levels (levelOf entries i) (ih (Nat.le_of_succ_le hi))
    rw [dropWhile_openNodes] at hclosed
    have hcount := (closeDefinitions_acts (b.steps (entries.take i)) (bound (levelOf entries i))).adds.count
    rw [steps_take_succ hi, heq, addIndexes_levels, openBefore]
    refine congrArg₂ List.cons ?_ hclosed
    exact Prod.ext hcount hkind

/-- The innermost node that an entry does not close is the last entry that encloses it, or the section. -/
theorem parent_of_entry (hi : i < entries.length) :
    ((b.steps (entries.take i)).closeDefinitions (bound (levelOf entries i))).current.id =
      ((((openBefore (levelOf entries) i).filter fun j =>
        levelOf entries j < closingLevel (levelOf entries i)).head?).map fun j =>
          (b.steps (entries.take j)).nodeCount).getD container := by
  have hclosed := closeDefinitions_levels (levelOf entries i) (steps_take_levels hb hentries hi.le)
  rw [dropWhile_openNodes] at hclosed
  have hhead := congrArg (fun levels => levels.head?.map Prod.fst) hclosed
  refine Option.some.inj (Eq.trans hhead ?_)
  cases (openBefore (levelOf entries) i).filter fun j => levelOf entries j < closingLevel (levelOf entries i) with
  | nil => rfl
  | cons first rest => rfl

end Build

/-- The number of the node of an event that comes after other events. -/
def nodeNumber (events : List Event) : NodeId := 1 + (events.flatMap Event.nodeKinds).length

theorem nodeCount_steps (c : Context) (events : List Event) :
    ((Build.start c).steps events).nodeCount = nodeNumber events ∧
      (((Build.start c).steps events).path.sites Node.label).length = nodeNumber events := by
  have hadds := (steps_acts events (Build.start c)).adds
  refine ⟨hadds.count, ?_⟩
  have hlength := congrArg List.length hadds.labels
  have hnumbered := congrArg List.length (numbered_map_snd (Build.start c).nodeCount (events.flatMap Event.nodeKinds))
  rw [length_map] at hnumbered
  rw [length_append, hnumbered, Path.labels, ← Path.sites_nodes, length_map] at hlength
  exact hlength

theorem startStorage_levels (b : Build) (storage : StorageSection) (header : StorageHeader) :
    ∃ outer, (b.step (.startStorage storage header)).path.levels = (b.nodeCount, none) :: outer := by
  have hcount := (b.closeDefinitions_acts none).adds.count
  refine ⟨(b.closeDefinitions none).path.levels, ?_⟩
  simp only [Build.step, Build.startStorage, Build.bindStorage, Build.bindCurrent, Build.mapDeclarations]
  split <;> exact congrArg (fun count => (count, none) :: (b.closeDefinitions none).path.levels) hcount

/-- The node of an entry keeps the parent that it is made with, whatever comes after. -/
theorem Context.compile_tree_parent (c : Context) (file : FileId) (before after : List Event) {event : Event}
    {level : Level} (h : event.level? = some level) :
    ∃ node, (c.compile file (before ++ event :: after)).1.tree.withParents[nodeNumber before]? =
        some (node, some (((Build.start { c with file }).steps before).closeDefinitions (Build.bound level)).current.id) ∧
      node.id = nodeNumber before := by
  let b := (Build.start { c with file }).steps before
  obtain ⟨hcount, hlength⟩ := nodeCount_steps { c with file } before
  have hsteps : (Build.start { c with file }).steps (before ++ event :: after) = (b.step event).steps after :=
    foldl_append
  have hadds := ((steps_acts after (b.step event)).trans (closeDefinitions_acts _ none)).adds
  obtain ⟨kind, hentry⟩ := step_entry_sites (b := b) h
  obtain ⟨later, hlater⟩ := hentry.trans hadds.sites
  have htree : ((Forest.ofTree (c.compile file (before ++ event :: after)).1.tree).sites Node.label []) =
      (((b.step event).steps after).closeDefinitions none).path.sites Node.label := by
    rw [← hsteps]
    exact Path.toTree_sites _ _
  have hget : ((c.compile file (before ++ event :: after)).1.tree.withParents.map
      fun entry => (entry.1.label, entry.2))[nodeNumber before]? =
        some ((nodeNumber before, kind), some (b.closeDefinitions (Build.bound level)).current.id) := by
    refine (congrArg (·[nodeNumber before]?) (Forest.withParents_sites _ [])).trans ?_
    rw [htree, ← hlater, getElem?_map, append_assoc, getElem?_append_right hlength.le, hlength, Nat.sub_self, ← hcount]
    rfl
  rw [getElem?_map] at hget
  obtain ⟨⟨node, above⟩, hentry, heq⟩ := Option.map_eq_some_iff.mp hget
  obtain ⟨hlabel, rfl⟩ := Prod.mk.inj heq
  exact ⟨node, hentry, congrArg Prod.fst hlabel⟩

/-- The node with the number of an event is made from what the event stands for first. -/
theorem Context.compile_tree_kind (c : Context) (file : FileId) (before after : List Event) {event : Event}
    {kind : NodeKind} {indexes : List NodeKind} (h : event.nodeKinds = kind :: indexes) {node : Node}
    {parent : Option NodeId}
    (hnode : (c.compile file (before ++ event :: after)).1.tree.withParents[nodeNumber before]? = some (node, parent)) :
    node.kind = kind := by
  have hkinds := congrArg (List.map Prod.snd) (c.compile_tree_labels file (before ++ event :: after))
  rw [map_map, numbered_map_snd] at hkinds
  have hget := congrArg (·[nodeNumber before]?) hkinds
  simp only [getElem?_map, Tree.nodes] at hget
  rw [← Forest.withParents_nodes _ none, getElem?_map] at hget
  have hhere : (Forest.withParents none (Forest.ofTree (c.compile file (before ++ event :: after)).1.tree))[nodeNumber
      before]? = some (node, parent) := hnode
  rw [hhere, nodeNumber, Nat.add_comm, getElem?_cons_succ, flatMap_append, flatMap_cons, h,
    getElem?_append_right le_rfl, Nat.sub_self] at hget
  exact Option.some.inj hget

/-- Entries that follow each other in a storage section nest by their levels, whatever comes before and after: the parent
of an entry's node is the last earlier entry whose level lies below the closing level of the entry and of every entry in
between, or the section when there is none. Before each entry the levels of the open entries grow from the section
inwards. -/
theorem entries_nested_by_levels (c : Context) (file : FileId) (before entries after : List Event)
    (storage : StorageSection) (header : StorageHeader) (hentries : ∀ event ∈ entries, event.level?.isSome = true) :
    let opening := before ++ [.startStorage storage header]
    let number := fun i => nodeNumber (opening ++ entries.take i)
    let tree := (c.compile file (opening ++ entries ++ after)).1.tree
    (∀ i (hi : i < entries.length), ∃ node parent, tree.withParents[number i]? = some (node, some parent) ∧
      node.id = number i ∧ entries[i].nodeKinds.head? = some node.kind ∧
      (∀ j, IsGreatest (enclosing (levelOf entries) i) j → parent = number j) ∧
      (enclosing (levelOf entries) i = ∅ → parent = nodeNumber before)) ∧
    ∀ i ≤ entries.length, ∃ inner outer,
      ((Build.start { c with file }).steps (opening ++ entries.take i)).path.levels =
        Build.opened inner ++ (nodeNumber before, none) :: outer ∧
      inner.Pairwise fun entry above => above.2 < entry.2 := by
  intro opening number tree
  let start := Build.start { c with file }
  have hsteps : ∀ events more, start.steps (events ++ more) = (start.steps events).steps more := fun events more =>
    foldl_append
  obtain ⟨outer, houter⟩ := startStorage_levels (start.steps before) storage header
  have hopening : (start.steps opening).path.levels = (nodeNumber before, none) :: outer := by
    rw [hsteps, ← (nodeCount_steps { c with file } before).1]
    exact houter
  have hnumber : ∀ i, ((start.steps opening).steps (entries.take i)).nodeCount = number i := fun i => by
    rw [← hsteps]
    exact (nodeCount_steps _ _).1
  refine ⟨fun i hi => ?_, fun i hi => ?_⟩
  · have hlevel := level?_eq_levelOf hentries hi
    have hparent := parent_of_entry hopening hentries hi
    obtain ⟨kind, indexes, hkinds, _⟩ := step_entry (b := start) hlevel
    have hsplit : opening ++ entries ++ after =
        opening ++ entries.take i ++ entries[i] :: (entries.drop (i + 1) ++ after) := by
      rw [← cons_append, getElem_cons_drop]
      conv_lhs => rw [← take_append_drop i entries]
      simp only [append_assoc]
    obtain ⟨node, hnode, hid⟩ :=
      c.compile_tree_parent file (opening ++ entries.take i) (entries.drop (i + 1) ++ after) hlevel
    have hkind := c.compile_tree_kind file _ _ hkinds hnode
    rw [← hsplit, hsteps, hparent] at hnode
    refine ⟨node, _, hnode, hid, by rw [hkinds, hkind]; rfl, fun j hj => ?_, fun hnone => ?_⟩
    · rw [head?_of_isGreatest _ hj]
      exact hnumber j
    · have hempty : (openBefore (levelOf entries) i).filter (fun j =>
          levelOf entries j < closingLevel (levelOf entries i)) = [] :=
        eq_nil_iff_forall_not_mem.mpr fun j hj => by
          have hmem := (mem_enclosing _).mpr hj
          rw [hnone] at hmem
          exact hmem
      rw [hempty]
      rfl
  · refine ⟨Build.openNodes (start.steps opening) entries (openBefore (levelOf entries) i), outer, ?_, ?_⟩
    · rw [hsteps]
      exact steps_take_levels hopening hentries hi
    · exact pairwise_map.mpr ((pairwise_openBefore _ i).imp fun h => h.2)

/-- A record with a field, a level-66 entry, and another field after it. -/
def fieldAfterRenames : List Event :=
  [.dataEntry (.named 1 "A" ⟨1, 8⟩), .dataEntry (.named 5 "B" ⟨2, 8⟩),
    .renamesEntry { name := "R", position := ⟨3, 8⟩, first := ⟨"B", ⟨3, 20⟩⟩ }, .dataEntry (.named 10 "C" ⟨4, 8⟩)]

/-- The field after the level-66 entry lies in the record, not in the field before it. -/
theorem field_after_renames_in_record :
    (∀ event ∈ fieldAfterRenames, event.level?.isSome = true) ∧
      ∃ node, (Context.compile {} 0 (.startStorage .workingStorage {} :: fieldAfterRenames)).1.tree.withParents[5]? =
        some (node, some 2) := by
  have hentries : ∀ event ∈ fieldAfterRenames, event.level?.isSome = true := by decide
  refine ⟨hentries, ?_⟩
  obtain ⟨node, parent, hnode, _, _, hparent, _⟩ :=
    (entries_nested_by_levels {} 0 [] fieldAfterRenames [] .workingStorage {} hentries).1 3 (by decide)
  have hgreatest : IsGreatest (enclosing (levelOf fieldAfterRenames) 3) 0 := by
    refine ⟨⟨by decide, by decide, fun k h0 h3 => ?_⟩, fun j ⟨hlt, hlevel, hbetween⟩ => ?_⟩
    · rcases (by omega : k = 1 ∨ k = 2) with rfl | rfl <;> decide
    · rcases (by omega : j = 0 ∨ j = 1 ∨ j = 2) with rfl | rfl | rfl
      · exact Nat.le_refl 0
      · exact absurd (hbetween 2 (by decide) (by decide)) (by decide)
      · exact absurd hlevel (by decide)
  rw [hparent 0 hgreatest] at hnode
  exact ⟨node, hnode⟩

end CobolSymbols
