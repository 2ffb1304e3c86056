import CobolSymbols.Proofs.Build.InPlace

/-!
# GLOBAL clauses

When a record is made into symbols, every item of it that is no index is bound to the node that it comes from, and no node
that has a symbol loses it. An item of a storage section other than GLOBAL-STORAGE is marked as global exactly when its
node has a GLOBAL clause or its owner is global.
-/

set_option autoImplicit false

namespace CobolSymbols

open Forest List

/-- Whether the entry that a node was made from has a GLOBAL clause. -/
def NodeKind.declaresGlobal (k : NodeKind) : Bool := (k.definition?.bind (·.entry)).any (·.isGlobal)

/-- What a data definition was made from, with its symbol. -/
def Node.binding? (n : Node) : Option (NodeKind × SymbolId) :=
  if n.isDefinition then n.symbol?.map fun v => (n.kind, v) else none

/-- The data definitions of a forest that have symbols. -/
def Forest.bindings (f : Forest) : List (NodeKind × SymbolId) := f.nodes.filterMap Node.binding?

/-- The definitions on top of a forest, and the definitions that lie in them, have no symbols yet. -/
def Forest.Idle : Forest → Prop
  | .nil => True
  | .cons node children siblings => (node.isDefinition = true → node.symbol? = none ∧ children.Idle) ∧ siblings.Idle

namespace Node

theorem binding?_of_not {n : Node} (h : n.isDefinition = false) : n.binding? = none := by
  unfold binding?
  rw [h]
  rfl

theorem binding?_of_unbound {n : Node} (h : n.symbol? = none) : n.binding? = none := by
  unfold binding?
  rw [h]
  split <;> rfl

theorem binding?_bindSymbol {n : Node} (h : n.isDefinition = true) (v : SymbolId) :
    (n.bindSymbol v).binding? = some (n.kind, v) := by
  unfold binding?
  rw [isDefinition_bindSymbol, h]
  rfl

theorem binding?_congr {n n' : Node} (hkind : n'.kind = n.kind) (hsymbol : n'.symbol? = n.symbol?) :
    n'.binding? = n.binding? := by
  unfold binding? isDefinition definition?
  rw [hkind, hsymbol]

end Node

namespace Forest

variable {f g : Forest}

theorem bindings_cons (node : Node) (children siblings : Forest) : (Forest.cons node children siblings).bindings =
    node.binding?.toList ++ (children.bindings ++ siblings.bindings) := by
  unfold bindings
  rw [nodes, filterMap_cons, filterMap_append]
  cases node.binding? <;> rfl

theorem bindings_cons_nil (node : Node) (children siblings : Forest) : (Forest.cons node children siblings).bindings =
    (Forest.cons node children .nil).bindings ++ siblings.bindings := by
  have hnil : Forest.bindings .nil = [] := rfl
  rw [bindings_cons, bindings_cons, hnil, append_nil, append_assoc]

theorem idle_append : (f.append g).Idle ↔ f.Idle ∧ g.Idle := by
  induction f with
  | nil => simp [append, Idle]
  | cons node children siblings _ ih => simp only [append, Idle, ih, and_assoc]

end Forest

namespace Table

variable {t t' : Table} {k : NodeKind} {v : SymbolId}

/-- An item is marked as its clauses and its owner ask for. -/
structure Obeys (t : Table) (k : NodeKind) (v : SymbolId) : Prop where
  lt : v < t.size
  owner_lt : ∀ owner, t.OwnedBy v owner → owner < t.size
  rule : ∀ kept : StorageSection, (t.get v).flags.has kept.flag = true →
    ((t.get v).flags.has .global = true ↔ kept ≠ .globalStorage ∧
      (k.declaresGlobal = true ∨ ∃ owner, t.OwnedBy v owner ∧ (t.get owner).flags.has .global = true))

theorem Obeys.keep (h : t.Obeys k v) (hsize : t.size ≤ t'.size) (hsame : ∀ id, id < t.size → t.SameStamp t' id) :
    t'.Obeys k v where
  lt := h.lt.trans_le hsize
  owner_lt owner hown := (h.owner_lt owner ((hsame v h.lt).ownedBy_iff.mp hown)).trans_le hsize
  rule kept hkept := by
    have hv := hsame v h.lt
    rw [hv.has kept.isMark_flag] at hkept
    rw [hv.has rfl, h.rule kept hkept]
    refine and_congr_right fun _ => or_congr_right (exists_congr fun owner => ?_)
    rw [hv.ownedBy_iff]
    refine and_congr_right fun hown => ?_
    rw [(hsame owner (h.owner_lt owner hown)).has rfl]

end Table

namespace Declarations

variable {d d' : Declarations} {scope owner id : SymbolId} {place : Placement}

/-- What declaring data does to a list of bindings: they stay, new items that are no indexes are bound, and what becomes
bound obeys its clauses. No stamp changes. -/
structure Binds (d d' : Declarations) (l l' : List (NodeKind × SymbolId)) : Prop where
  size_le : d.table.size ≤ d'.table.size
  stamp : ∀ id, id < d.table.size → d.table.SameStamp d'.table id
  kept : l ⊆ l'
  obeys : ∀ k v, (k, v) ∈ l' → (k, v) ∈ l ∨ d'.table.Obeys k v
  covers : ∀ v, New d d' v → d'.table.IsItem v → (d'.table.get v).indexed? = none → ∃ k, (k, v) ∈ l'

section Binds

variable {d'' : Declarations} {l l' l'' : List (NodeKind × SymbolId)}

/-- Nothing has to be bound for a step that makes no items but indexes. -/
theorem binds_of_indexes (hsize : d.table.size ≤ d'.table.size)
    (hstamp : ∀ id, id < d.table.size → d.table.SameStamp d'.table id)
    (hindexes : ∀ v, New d d' v → d'.table.IsItem v → (d'.table.get v).indexed? ≠ none)
    (l : List (NodeKind × SymbolId)) : Binds d d' l l where
  size_le := hsize
  stamp := hstamp
  kept := List.Subset.refl l
  obeys _ _ hv := .inl hv
  covers v hv hitem hplain := absurd hplain (hindexes v hv hitem)

theorem binds_of_size (hsize : d'.table.size = d.table.size) (hstamp : ∀ id, d.table.SameStamp d'.table id)
    (l : List (NodeKind × SymbolId)) : Binds d d' l l :=
  binds_of_indexes hsize.symm.le (fun id _ => hstamp id)
    (fun _ hv => absurd hv.2 (hsize ▸ hv.1).not_gt) l

theorem Quiet.binds (h : Quiet d d') (l : List (NodeKind × SymbolId)) : Binds d d' l l :=
  binds_of_indexes h.stamped.size_le h.stamped.stamp
    (fun _ hv => absurd hv.2 (h.size_eq ▸ hv.1).not_gt) l

theorem Binds.trans (h : Binds d d' l l') (h' : Binds d' d'' l' l'') : Binds d d'' l l'' where
  size_le := h.size_le.trans h'.size_le
  stamp id hid := (h'.stamp id (hid.trans_le h.size_le)).trans (h.stamp id hid)
  kept := List.Subset.trans h.kept h'.kept
  obeys k v hv := by
    rcases h'.obeys k v hv with hv | hobeys
    · exact (h.obeys k v hv).imp_right fun hobeys => hobeys.keep h'.size_le h'.stamp
    · exact .inr hobeys
  covers v hv hitem hplain := by
    by_cases hlt : v < d'.table.size
    · have hsame := h'.stamp v hlt
      rw [hsame.indexed?] at hplain
      unfold Table.IsItem at hitem
      rw [hsame.kind] at hitem
      obtain ⟨k, hk⟩ := h.covers v ⟨hv.1, hlt⟩ hitem hplain
      exact ⟨k, h'.kept hk⟩
    · exact h'.covers v ⟨not_lt.mp hlt, hv.2⟩ hitem hplain

/-- Other bindings may stand next to them. -/
theorem Binds.among (h : Binds d d' l l') {others m m' : List (NodeKind × SymbolId)}
    (hm : ∀ b, b ∈ m ↔ b ∈ l ∨ b ∈ others) (hm' : ∀ b, b ∈ m' ↔ b ∈ l' ∨ b ∈ others) : Binds d d' m m' where
  size_le := h.size_le
  stamp := h.stamp
  kept b hb := (hm' b).mpr (((hm b).mp hb).imp_left fun hold => h.kept hold)
  obeys k v hv := by
    rcases (hm' _).mp hv with hv | hv
    · exact (h.obeys k v hv).imp_left fun hold => (hm _).mpr (.inl hold)
    · exact .inl ((hm _).mpr (.inr hv))
  covers v hv hitem hplain := by
    obtain ⟨k, hk⟩ := h.covers v hv hitem hplain
    exact ⟨k, (hm' _).mpr (.inl hk)⟩

theorem Binds.append_left (h : Binds d d' l l') (others : List (NodeKind × SymbolId)) :
    Binds d d' (others ++ l) (others ++ l') :=
  h.among (fun _ => mem_append.trans or_comm) fun _ => mem_append.trans or_comm

/-- A tree is made into symbols, then its siblings are. -/
theorem Binds.cons {node node' : Node} {children children' siblings siblings' : Forest}
    (h : Binds d d' (Forest.cons node children .nil).bindings (Forest.cons node' children' .nil).bindings)
    (hsiblings : Binds d' d'' siblings.bindings siblings'.bindings) :
    Binds d d'' (Forest.cons node children siblings).bindings (Forest.cons node' children' siblings').bindings := by
  rw [bindings_cons_nil node children siblings, bindings_cons_nil node' children' siblings']
  exact (h.among (fun _ => mem_append) fun _ => mem_append).trans (hsiblings.append_left _)

end Binds

section Indexes

variable {indexed : SymbolId} {ref : ScopeRef} {typeBody : Option SymbolId} (f : Forest)

theorem declareIndexes_stamped (d : Declarations) : Stamped d (declareIndexes indexed ref typeBody f d).2 := by
  induction f generalizing d with
  | nil => exact (Quiet.refl d).stamped
  | cons node children siblings _ ih =>
    cases hindex : node.kind.index? with
    | none =>
      rw [declareIndexes_of_other hindex]
      exact ih d
    | some name =>
      rw [declareIndexes_of_index (kind_of_index? hindex)]
      exact ((alloc_stamped _).trans (stored_stamped d.table.size (some ref) typeBody)).trans (ih _)

/-- All that is made is indexes. -/
theorem declareIndexes_indexed (d : Declarations) {v : SymbolId}
    (h : New d (declareIndexes indexed ref typeBody f d).2 v) :
    ((declareIndexes indexed ref typeBody f d).2.table.get v).indexed? ≠ none := by
  induction f generalizing d with
  | nil => exact absurd h.2 h.1.not_gt
  | cons node children siblings _ ih =>
    cases hindex : node.kind.index? with
    | none =>
      rw [declareIndexes_of_other hindex] at h ⊢
      exact ih d h
    | some name =>
      rw [declareIndexes_of_index (kind_of_index? hindex)] at h ⊢
      have hsize := size_declareIndex d indexed ref typeBody name
      rcases Nat.eq_or_lt_of_le h.1 with heq | hgt
      · subst heq
        have hlt : d.table.size < (d.declareIndex indexed ref typeBody name).2.table.size := by
          rw [hsize]
          exact Nat.lt_succ_self _
        have hself : ((d.declareIndex indexed ref typeBody name).2.table.get d.table.size).stamp =
            (d.indexSymbol indexed name).stamp := stamp_make ⟨some ref, typeBody⟩ (Quiet.refl _).stamped
        have hmade : ((d.declareIndex indexed ref typeBody name).2.table.get d.table.size).indexed? = some indexed :=
          congrArg Symbol.Stamp.indexed hself
        rw [((declareIndexes_stamped siblings _).stamp d.table.size hlt).indexed?, hmade]
        exact Option.some_ne_none _
      · refine ih _ ⟨?_, h.2⟩
        rw [hsize]
        exact hgt

theorem declareIndexes_bindings (d : Declarations) :
    (declareIndexes indexed ref typeBody f d).1.bindings = f.bindings := by
  induction f generalizing d with
  | nil => rfl
  | cons node children siblings _ ih =>
    cases hindex : node.kind.index? with
    | none =>
      rw [declareIndexes_of_other hindex, bindings_cons, bindings_cons, ih]
    | some name =>
      have hkind := kind_of_index? hindex
      have hnot : node.isDefinition = false := Node.isDefinition_of_kind hkind
      rw [declareIndexes_of_index hkind, bindings_cons, bindings_cons, ih, Node.binding?_of_not hnot,
        Node.binding?_of_not (n := node.bindSymbol d.table.size) hnot]

end Indexes

section Marks

/-- A hosting owner that is global is an item outside of GLOBAL-STORAGE. -/
theorem hosts_global {t : Table} {kept : StorageSection} (h : t.Hosts (some kept) owner)
    (hglobal : (t.get owner).flags.has .global = true) : (t.get owner).isScope = false ∧ kept ≠ .globalStorage := by
  rcases h with ⟨_, hnot⟩ | ⟨hmarked, _⟩
  · exact absurd (hnot.symm.trans hglobal) Bool.false_ne_true
  · refine ⟨(t.get owner).isScope_eq.trans (SymbolKind.isScope_of_isItem hmarked.item), ?_⟩
    rintro rfl
    have hkept := hmarked.flags .globalStorage
    exact absurd ((hmarked.apart hkept).symm.trans hglobal) Bool.false_ne_true

theorem Ground.obeys_placed (h : d.Ground scope owner place) (s : Symbol) (entry : Option DataEntry) {k : NodeKind}
    (hneutral : s.flags.Neutral) (hglobal : s.kind ≠ .typeDefinition → s.flags.has .global = false)
    (hk : k.declaresGlobal = entry.any (·.isGlobal)) (hlt : id < d'.table.size)
    (hsame : (d'.table.get id).stamp = (d.placed entry place s).stamp) (hsize : d.table.size ≤ d'.table.size)
    (hstamp : ∀ id, id < d.table.size → d.table.SameStamp d'.table id) : d'.table.Obeys k id := by
  have hmarks : ∀ f : SymbolFlag, f.isMark = true →
      (d'.table.get id).flags.has f = (d.placed entry place s).flags.has f := by
    intro f hf
    have hmark := congrFun (congrArg Symbol.Stamp.marks hsame) f
    simp only [Symbol.stamp, hf, Bool.true_and] at hmark
    exact hmark
  have hown : (d'.table.get id).owner = some owner := (congrArg Symbol.Stamp.owner hsame).trans h.owner_eq
  have hlow := h.hosts.lt_size
  have howner : (d'.table.get owner).flags.has .global = (d.table.get owner).flags.has .global :=
    (hstamp owner hlow).has rfl
  refine ⟨hlt, fun o ho => ?_, fun kept hkept => ?_⟩
  · obtain rfl := Table.OwnedBy.unique hown ho
    exact hlow.trans_le hsize
  · rw [hmarks _ kept.isMark_flag, has_origin_placed _ _ hneutral, decide_eq_true_eq] at hkept
    have hkind : s.kind ≠ .typeDefinition := by
      intro hkind
      simp [originOf, hkind] at hkept
    have hhosts := h.hosts
    rw [← originOf_eq d place hkind, hkept] at hhosts
    have hexists : (∃ o, d'.table.OwnedBy id o ∧ (d'.table.get o).flags.has .global = true) ↔
        (d.table.get owner).flags.has .global = true := by
      unfold Table.OwnedBy
      simp [hown, howner]
    rw [hexists, hmarks _ rfl, has_global_placed, hglobal hkind, Bool.false_or, has_global_placeFlags h.owner_eq, hkept,
      hk]
    cases entry with
    | some entry => simp [and_comm]
    | none =>
      simp only [Option.any_none, Bool.false_eq_true, false_or, Bool.and_eq_true, Bool.not_eq_true']
      exact ⟨fun hboth => ⟨(hosts_global hhosts hboth.2).2, hboth.2⟩,
        fun hboth => ⟨(hosts_global hhosts hboth.2).1, hboth.2⟩⟩

end Marks

section Items

variable {children : Forest} {typeBody : Option SymbolId} {fields : Placement → Declarations → Forest × Declarations}

/-- A function that makes the definitions on top of a forest into fields binds them. -/
def FieldsBind (scope : SymbolId) (f : Forest) (fields : Placement → Declarations → Forest × Declarations) : Prop :=
  ∀ (id : SymbolId) (typeBody : Option SymbolId) (d : Declarations), d.Ground scope id ⟨some (.fields id), typeBody⟩ →
    Binds d (fields ⟨some (.fields id), typeBody⟩ d).2 f.bindings (fields ⟨some (.fields id), typeBody⟩ d).1.bindings

theorem Ground.declareContent_binds (h : d.Ground scope id ⟨some (.fields id), typeBody⟩) (entry : DataEntry)
    (hfields : FieldsBind scope children fields) :
    Binds d (d.declareContent id entry typeBody children fields).2 children.bindings
      (d.declareContent id entry typeBody children fields).1.bindings := by
  unfold declareContent
  split
  · have hset : Quiet d (d.setType id (.group {} none id)) := setType_quiet _
    have hmade := hfields id typeBody _ (h.stamped hset.stamped)
    exact ((hset.binds _).trans hmade).trans (((setLeading_quiet entry).trans (wrapArray_quiet entry typeBody)).binds _)
  · exact ((setElementary_quiet entry typeBody).trans (wrapArray_quiet entry typeBody)).binds _

/-- Entering an item makes its indexes and nothing else. -/
theorem enterItem_binds (id : SymbolId) (isType : Bool) (place : Placement) (children : Forest) :
    Binds d (d.enterItem id isType place children).2 children.bindings
      (d.enterItem id isType place children).1.bindings := by
  unfold enterItem
  split
  · have hentered : Binds d (d.enterIn id place.parent) children.bindings children.bindings :=
      binds_of_size (size_enterIn id place.parent) (enterIn_stamp id place.parent) _
    exact hentered.trans (registerType_quiet.binds _)
  · have hstored : Binds d ((d.enterIn id place.parent).storeVariable id place.typeBody) children.bindings
        children.bindings := binds_of_size size_enterIn_storeVariable (fun other =>
      (storeVariable_stamp id place.typeBody other).trans (enterIn_stamp id place.parent other)) _
    split
    · rename_i ref _
      rw [declareIndexes_bindings]
      have hindexes : Stamped ((d.enterIn id place.parent).storeVariable id place.typeBody)
          (declareIndexes id ref place.typeBody children
            ((d.enterIn id place.parent).storeVariable id place.typeBody)).2 := declareIndexes_stamped children _
      exact hstored.trans (binds_of_indexes hindexes.size_le hindexes.stamp
        (fun v hv _ => declareIndexes_indexed children _ hv) _)
    · exact hstored

/-- A definition without a symbol gets one, and what lies below it gets symbols after that. -/
theorem Binds.bind {node : Node} {s : Symbol} {children' : Forest} (hdef : node.isDefinition = true)
    (hfree : node.symbol? = none) (hobeys : d'.table.Obeys node.kind d.table.size)
    (h : Binds (d.alloc s).2 d' children.bindings children'.bindings) :
    Binds d d' (Forest.cons node children .nil).bindings
      (Forest.cons (node.bindSymbol d.table.size) children' .nil).bindings := by
  have hsize := size_alloc (d := d) s
  have hnil : Forest.bindings .nil = [] := rfl
  have hbefore : (Forest.cons node children .nil).bindings = children.bindings := by
    rw [bindings_cons, Node.binding?_of_unbound hfree, hnil, append_nil]
    rfl
  have hafter : (Forest.cons (node.bindSymbol d.table.size) children' .nil).bindings =
      (node.kind, d.table.size) :: children'.bindings := by
    rw [bindings_cons, Node.binding?_bindSymbol hdef, hnil, append_nil]
    rfl
  rw [hbefore, hafter]
  refine ⟨(alloc_stamped s).size_le.trans h.size_le, fun id hid => ?_, subset_cons_of_subset _ h.kept,
    fun k v hv => ?_, fun v hv hitem hplain => ?_⟩
  · have hlt : id < (d.alloc s).2.table.size := hid.trans_le (alloc_stamped s).size_le
    exact (h.stamp id hlt).trans ((alloc_stamped s).stamp id hid)
  · rcases mem_cons.mp hv with hv | hv
    · cases hv
      exact .inr hobeys
    · exact h.obeys k v hv
  · rcases Nat.eq_or_lt_of_le hv.1 with heq | hgt
    · exact ⟨node.kind, mem_cons.mpr (.inl (by rw [heq]))⟩
    · obtain ⟨k, hk⟩ := h.covers v ⟨hsize ▸ hgt, hv.2⟩ hitem hplain
      exact ⟨k, mem_cons_of_mem _ hk⟩

variable {node : Node}

section

variable (h : d.Ground scope owner place)
include h

/-- An entry with clauses that makes an item or a type. -/
theorem Ground.declareItem_binds (entry : DataEntry) (kind : ItemKind)
    (body : Option SymbolId) (hbody : (if kind.isType then some d.table.size else place.typeBody) = body)
    (hinside : (d.alloc (d.itemSymbol entry kind place)).2.Ground scope d.table.size ⟨some (.fields d.table.size), body⟩)
    (hdef : node.isDefinition = true) (hfree : node.symbol? = none)
    (hk : node.kind.declaresGlobal = entry.isGlobal) (hfields : FieldsBind scope children fields)
    {made : SymbolId × Forest × Declarations} (hmade : made = d.declareItem entry kind place children fields) :
    Binds d made.2.2 (Forest.cons node children .nil).bindings
      (Forest.cons (node.bindSymbol made.1) made.2.1 .nil).bindings := by
  have hcontent := (hinside.declareContent_binds entry hfields).trans
    (enterItem_binds d.table.size kind.isType place _)
  have hlt := d.lt_size_alloc (d.itemSymbol entry kind place)
  have hget : (d.alloc (d.itemSymbol entry kind place)).2.table.get d.table.size = d.itemSymbol entry kind place :=
    Table.get_alloc_self d.table _
  have hself := (hcontent.stamp d.table.size hlt).trans (congrArg Symbol.stamp hget)
  subst hmade
  rw [declareItem_eq, hbody]
  refine Binds.bind hdef hfree ?_ hcontent
  refine h.obeys_placed _ (some entry) ?_ ?_ hk (hlt.trans_le hcontent.size_le) hself
    ((alloc_stamped _).size_le.trans hcontent.size_le) fun id hid => ?_
  · exact neutral_kindFlags entry kind
  · intro hkind
    rw [Symbol.kind_of_item rfl, Ne, ItemKind.symbolKind_eq_typeDefinition, Bool.not_eq_true] at hkind
    exact has_global_kindFlags entry hkind
  · exact (hcontent.stamp id (hid.trans hlt)).trans ((alloc_stamped _).stamp id hid)

/-- A level-66 or level-88 entry. -/
theorem Ground.placeItem_binds {s : Symbol} (hflags : s.flags = ∅) (hdef : node.isDefinition = true)
    (hfree : node.symbol? = none) (hk : node.kind.declaresGlobal = false) (children : Forest) :
    Binds d (d.placeItem s place).2 (Forest.cons node children .nil).bindings
      (Forest.cons (node.bindSymbol (d.placeItem s place).1) children .nil).bindings := by
  have hstored := stored_stamped (d := (d.alloc (d.placed none place s)).2) d.table.size place.parent place.typeBody
  have hsize : (d.placeItem s place).2.table.size = (d.alloc (d.placed none place s)).2.table.size :=
    size_enterIn_storeVariable
  have hlt : d.table.size < (d.placeItem s place).2.table.size := by
    rw [hsize, size_alloc]
    exact Nat.lt_succ_self _
  have hself : ((d.placeItem s place).2.table.get d.table.size).stamp = (d.placed none place s).stamp :=
    stamp_make place (Quiet.refl _).stamped
  have hkept : Binds (d.alloc (d.placed none place s)).2 (d.placeItem s place).2 children.bindings children.bindings :=
    binds_of_indexes hstored.size_le hstored.stamp (fun v hv => absurd hv.2 (hsize ▸ hv.1).not_gt) _
  have hsince := (alloc_stamped (d := d) (d.placed none place s)).trans hstored
  refine Binds.bind hdef hfree
    (h.obeys_placed s none ?_ (fun _ => ?_) hk hlt hself hsince.size_le hsince.stamp) hkept
  · rw [hflags]
    exact SymbolFlags.avoids_empty
  · rw [hflags]
    exact FlagSet.has_empty _

/-- A definition inside another one, or a record. -/
theorem Ground.declareNode_binds (node : Node) (hfree : node.isDefinition = true → node.symbol? = none)
    (hfields : node.isDefinition = true → FieldsBind scope children fields) :
    Binds d (d.declareNode node place children fields).2.2 (Forest.cons node children .nil).bindings
      (Forest.cons (bindIfMade node (d.declareNode node place children fields).1)
        (d.declareNode node place children fields).2.1 .nil).bindings := by
  have hnode := d.nodeMade node place children fields
  generalize d.declareNode node place children fields = made at hnode ⊢
  cases hnode with
  | nothing => exact (Quiet.refl d).binds _
  | item c entry kind htold hdef hentry _ _ hkind hindex _ hmade =>
    have htarget : Quiet d { d with context := c } := quiet_of_table rfl htold.table
    have hground := h.stamped htarget.stamped
    have hplain := ItemKind.indexed?_of_ne hindex
    refine (htarget.binds _).trans (hground.declareItem_binds entry kind place.typeBody ?_
      (hground.inside (hground.laid_item entry hkind.1 hplain) hplain) hdef (hfree hdef) ?_ (hfields hdef) hmade)
    · rw [hkind.1, if_neg Bool.false_ne_true]
    · unfold NodeKind.declaresGlobal
      rw [hentry]
      rfl
  | alone s data hs hdef halone pending _ =>
    have hqueued : Quiet (d.placeItem s place).2 { (d.placeItem s place).2 with pendingRenames := pending } :=
      quiet_of_table rfl rfl
    have hk : node.kind.declaresGlobal = false := by
      cases hkind : node.kind <;> simp [hkind, NodeKind.standsAlone] at halone <;> rfl
    exact (h.placeItem_binds hs.flags hdef (hfree hdef) hk children).trans (hqueued.binds _)

end

theorem fieldsBind (scope : SymbolId) {f : Forest} (hidle : f.Idle) :
    FieldsBind scope f (fun place d => declareFields f place d) := by
  induction f with
  | nil => exact fun id typeBody d _ => (Quiet.refl d).binds _
  | cons node children siblings ihChildren ihSiblings =>
    intro id typeBody d h
    have hnode := h.declareNode_binds node (fun hdef => (hidle.1 hdef).1)
      fun hdef => ihChildren (hidle.1 hdef).2
    have hlays := h.declareNode_lays node children (fieldsLay scope children)
    simp only
    rw [declareFields_cons]
    exact hnode.cons (ihSiblings hidle.2 id typeBody _ (h.stamped hlays.toStamped))

end Items

section Records

section

variable (tree : Tree) (hidle : (Forest.ofTree tree).Idle) (hcurrent : d.currentScope = some scope)
  (hprog : (d.table.get scope).kind.isProgramLike = true) (hglobal : (d.table.get scope).flags.has .global = false)
include hidle hcurrent hprog hglobal

theorem declareTop_binds :
    Binds d (d.declareTop tree scope).2 (Forest.ofTree tree).bindings
      (Forest.ofTree (d.declareTop tree scope).1).bindings := by
  unfold declareTop
  split
  · rename_i entry hkind
    have hground := ground_types hcurrent hprog hglobal
    have hdef : tree.node.isDefinition = true := Node.isDefinition_of_kind hkind
    obtain ⟨hfree, hchildren⟩ := hidle.1 hdef
    have hlaid := hground.laid_type entry (entry.typeClause.getD {}).restriction
    exact hground.declareItem_binds entry _ _ rfl (hground.inside hlaid rfl) hdef hfree (by rw [hkind]; rfl)
      (fieldsBind scope hchildren) rfl
  · exact (ground_storage hcurrent hprog hglobal).declareNode_binds tree.node (fun hdef => (hidle.1 hdef).1) fun hdef =>
      fieldsBind scope (hidle.1 hdef).2

theorem declareRecord_binds :
    Binds d (d.declareRecord tree).2 (Forest.ofTree tree).bindings
      (Forest.ofTree (d.declareRecord tree).1).bindings := by
  rw [declareRecord_of_some hcurrent]
  have htop := declareTop_binds (d := d.clearRenames) tree hidle hcurrent hprog hglobal
  exact ((clearRenames_quiet.binds _).trans htop).trans (((checkRenames_checks _).quiet.trans clearRenames_quiet).binds _)

end

theorem Ground.declareParameters_binds {linkage : ScopeRef} {f : Forest} (hidle : f.Idle) (signature : Signature)
    {d : Declarations} (h : d.Ground scope owner ⟨some linkage, none⟩) :
    Binds d (declareParameters linkage f signature d).2.2 f.bindings
      (declareParameters linkage f signature d).1.bindings := by
  induction f generalizing signature d with
  | nil => exact (Quiet.refl d).binds _
  | cons node children siblings _ ih =>
    unfold declareParameters
    split
    · rename_i entry direction hkind
      have hdef : node.isDefinition = true := Node.isDefinition_of_kind hkind
      obtain ⟨hfree, hchildren⟩ := hidle.1 hdef
      have hitem := h.declareItem_binds entry .plain none rfl (h.inside (h.laid_item entry rfl rfl) rfl) hdef
        hfree (by rw [hkind]; rfl) (fieldsBind scope hchildren) rfl
      have hflag := addFlags_quiet (d.declareItem entry .plain ⟨some linkage, none⟩ children
        (fun place d => declareFields children place d)).2.2 d.table.size (avoids_parameterFlag direction).unmarked
      have hstamped := (h.declareItem_lays entry .plain children rfl rfl (fieldsLay scope children)).toStamped.trans
        hflag.stamped
      exact (hitem.trans (hflag.binds _)).cons (ih hidle.2 _ (h.stamped hstamped))
    · exact Binds.cons ((Quiet.refl d).binds _) (ih hidle.2 signature h)

end Records

end Declarations

end CobolSymbols
