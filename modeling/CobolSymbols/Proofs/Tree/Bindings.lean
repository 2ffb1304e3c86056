import CobolSymbols.Proofs.Build.Frame
import CobolSymbols.Proofs.Tree.Standing

/-!
# Trees and the symbols made for them

The symbol of a definition holds as its fields the symbols of the definitions below it, each followed by its indexes.
`Forest.Realized` says so of every definition of a forest. It reads nothing but how items are connected, so it stays true
as long as that does.

`Gains` counts how often a list names each symbol: a forest that is made into symbols names what it named before, and
each new symbol at most once.
-/

set_option autoImplicit false

namespace CobolSymbols

open List Forest

/-- The fields of a symbol in order, if it is a group. -/
def Table.fieldOrder (t : Table) (id : SymbolId) : Option (List SymbolId) := (t.get id).fields?.map (·.order)

theorem Table.fieldList_of_fieldOrder {t : Table} {id : SymbolId} {fields : List SymbolId}
    (h : t.fieldOrder id = some fields) : (t.get id).fieldList = fields := by
  have h' : (t.get id).fields?.map (·.order) = some fields := h
  unfold Symbol.fieldList
  rw [h', Option.getD_some]

/-- A tree is a field of a group: its symbol belongs to the group, and so do its indexes, which are named by its INDEXED
BY phrase. -/
structure Table.Member (t : Table) (group : SymbolId) (field : Tree) (id : SymbolId) : Prop where
  item : t.IsItem id
  owner : (t.get id).owner = some group
  names : field.children.indexSymbols.map (fun index => (t.get index).name) =
    field.node.kind.indexNames.map fun name => name.name
  indexes : ∀ index ∈ field.children.indexSymbols,
    t.IsItem index ∧ (t.get index).owner = some group ∧ (t.get index).indexed? = some id

/-- A symbol holds what a forest was made into. -/
structure Table.Holds (t : Table) (group : SymbolId) (f : Forest) : Prop where
  item : t.IsItem group
  fields : (t.get group).fieldList = f.fieldSymbols
  members : ∀ field ∈ f.trees, field.node.isDefinition = true → ∀ id, field.node.symbol? = some id →
    t.Member group field id

section Keep

variable {t t' : Table} {id : SymbolId}

theorem Table.SameView.fieldOrder (h : t.SameView t' id) : t'.fieldOrder id = t.fieldOrder id :=
  congrArg Symbol.ItemView.fields h

theorem Table.SameView.fieldList (h : t.SameView t' id) : (t'.get id).fieldList = (t.get id).fieldList :=
  congrArg (fun order : Option (List SymbolId) => order.getD []) h.fieldOrder

theorem Table.Member.keep {group : SymbolId} {field : Tree} (h : t.Member group field id) (hid : t.SameView t' id)
    (hindexes : ∀ index ∈ field.children.indexSymbols, t.IsItem index → t.SameView t' index) :
    t'.Member group field id where
  item := hid.item h.item
  owner := by rw [hid.owner, h.owner]
  names := by
    rw [← h.names]
    refine map_congr_left fun index hindex => ?_
    exact (hindexes index hindex (h.indexes index hindex).1).name
  indexes index hindex := by
    obtain ⟨hitem, howner, hindexed⟩ := h.indexes index hindex
    have hsame := hindexes index hindex hitem
    exact ⟨hsame.item hitem, by rw [hsame.owner, howner], by rw [hsame.indexed?, hindexed]⟩

end Keep

namespace Forest

/-- The symbols of all definitions of a forest hold what the definitions below them were made into. -/
def Realized (t : Table) : Forest → Prop
  | .nil => True
  | .cons node children siblings =>
    (node.isDefinition = true → ∀ id, node.symbol? = some id → t.Holds id children) ∧
      children.Realized t ∧ siblings.Realized t

section Symbols

variable {f g : Forest} {t t' : Table}

@[simp] theorem symbols_nil : symbols .nil = [] := rfl

theorem symbols_cons (node : Node) (children siblings : Forest) :
    symbols (.cons node children siblings) = node.symbol?.toList ++ children.symbols ++ siblings.symbols := by
  unfold symbols
  rw [nodes, filterMap_cons]
  cases node.symbol? <;> simp

theorem symbols_cons_nil (node : Node) (children siblings : Forest) :
    symbols (.cons node children siblings) = symbols (.cons node children .nil) ++ siblings.symbols := by
  simp [symbols_cons]

@[simp] theorem symbols_append : (f.append g).symbols = f.symbols ++ g.symbols := by
  simp [symbols]

/-- The indexes on top of a forest are among its symbols. -/
theorem indexSymbols_subset : f.indexSymbols ⊆ f.symbols := by
  induction f with
  | nil => exact List.Subset.refl _
  | cons node children siblings _ ih =>
    intro id hid
    rw [symbols_cons]
    simp only [indexSymbols, roots, filterMap_cons] at hid ih
    cases hindex : node.kind.index? with
    | none =>
      simp only [hindex, Option.bind_none] at hid
      exact mem_append_right _ (ih hid)
    | some name =>
      simp only [hindex, Option.bind_some] at hid
      cases hsymbol : node.symbol? with
      | none =>
        simp only [hsymbol] at hid
        exact mem_append_right _ (ih hid)
      | some own =>
        simp only [hsymbol] at hid
        rcases mem_cons.mp hid with heq | hid
        · subst heq
          simp
        · exact mem_append_right _ (ih hid)

theorem mem_symbols_of_tree {field : Tree} {id : SymbolId} (hfield : field ∈ f.trees)
    (hid : id ∈ field.node.symbol?.toList ++ field.children.symbols) : id ∈ f.symbols := by
  induction f with
  | nil => cases hfield
  | cons node children siblings _ ih =>
    rw [symbols_cons]
    rcases mem_cons.mp hfield with heq | hfield
    · subst heq
      exact mem_append_left _ hid
    · exact mem_append_right _ (ih hfield)

end Symbols

end Forest

theorem Table.Holds.keep {f : Forest} {t t' : Table} {group : SymbolId} (h : t.Holds group f) (hgroup : t.SameView t' group)
    (hkeep : ∀ id ∈ f.symbols, t.IsItem id → t.SameView t' id) : t'.Holds group f where
  item := hgroup.item h.item
  fields := by rw [hgroup.fieldList, h.fields]
  members field hfield hdef id hid := by
    have hmember := h.members field hfield hdef id hid
    refine hmember.keep (hkeep id (mem_symbols_of_tree hfield (by simp [hid])) hmember.item) ?_
    intro index hindex
    exact hkeep index (mem_symbols_of_tree hfield (mem_append_right _ (indexSymbols_subset hindex)))

namespace Forest

section Realized

variable {f g : Forest} {t t' : Table} {inside : Bool}

theorem realized_append : (f.append g).Realized t ↔ f.Realized t ∧ g.Realized t := by
  induction f with
  | nil => simp [append, Realized]
  | cons node children siblings _ ih => simp only [append, Realized, ih, and_assoc]

/-- A forest stays realized as long as its items stay connected as they are. -/
theorem Realized.keep (h : f.Realized t) (hkeep : ∀ id ∈ f.symbols, t.IsItem id → t.SameView t' id) :
    f.Realized t' := by
  induction f with
  | nil => trivial
  | cons node children siblings ihChildren ihSiblings =>
    rw [symbols_cons] at hkeep
    obtain ⟨hnode, hchildren, hsiblings⟩ := h
    have hkeepChildren : ∀ id ∈ children.symbols, t.IsItem id → t.SameView t' id := fun id hid =>
      hkeep id (mem_append_left _ (mem_append_right _ hid))
    refine ⟨?_, ihChildren hchildren hkeepChildren, ihSiblings hsiblings fun id hid =>
      hkeep id (mem_append_right _ hid)⟩
    intro hdef id hid
    have hholds := hnode hdef id hid
    exact hholds.keep (hkeep id (by simp [hid]) hholds.item) hkeepChildren

theorem Waiting.fieldSymbols_eq (h : f.Waiting inside) : f.fieldSymbols = [] := by
  induction f with
  | nil => rfl
  | cons node children siblings _ ih =>
    obtain ⟨hnode, hsiblings⟩ := h
    unfold fieldSymbols
    rw [ih hsiblings]
    by_cases hdef : node.isDefinition = true
    · rw [if_pos hdef] at hnode
      simp [hnode.1]
    · simp [hdef]

theorem Waiting.symbol?_eq (h : f.Waiting inside) {field : Tree} (hfield : field ∈ f.trees)
    (hdef : field.node.isDefinition = true) : field.node.symbol? = none := by
  induction f with
  | nil => cases hfield
  | cons node children siblings _ ih =>
    obtain ⟨hnode, hsiblings⟩ := h
    rcases mem_cons.mp hfield with heq | hfield
    · subst heq
      rw [if_pos hdef] at hnode
      exact hnode.1
    · exact ih hsiblings hfield

/-- Without names of INDEXED BY phrases there are no indexes. -/
theorem indexSymbols_eq_nil (h : f.indexNames = []) : f.indexSymbols = [] := by
  unfold indexNames at h
  unfold indexSymbols
  rw [filterMap_eq_nil_iff] at h ⊢
  intro node hnode
  rw [h node hnode, Option.bind_none]

end Realized

/-- The forests differ only in what the indexes on top of them mean. -/
inductive SameButIndexes : Forest → Forest → Prop
  | nil : SameButIndexes .nil .nil
  | cons (node node' : Node) (children siblings siblings' : Forest) (hkind : node'.kind = node.kind)
      (hnode : node.kind.index? = none → node' = node) (hsiblings : SameButIndexes siblings siblings') :
      SameButIndexes (.cons node children siblings) (.cons node' children siblings')

section SameButIndexes

variable {f f' : Forest} {t : Table} {inside : Bool}

theorem index?_eq_none_of_isDefinition {node : Node} (h : node.isDefinition = true) : node.kind.index? = none := by
  cases hkind : node.kind <;> simp [Node.isDefinition, Node.definition?, NodeKind.definition?, hkind] at h <;> rfl

theorem isDefinition_congr {node node' : Node} (h : node'.kind = node.kind) : node'.isDefinition = node.isDefinition := by
  unfold Node.isDefinition Node.definition?
  rw [h]

variable (h : SameButIndexes f f')
include h

theorem SameButIndexes.fieldSymbols_eq : f'.fieldSymbols = f.fieldSymbols := by
  induction h with
  | nil => rfl
  | cons node node' children siblings siblings' hkind hnode _ ih =>
    unfold fieldSymbols
    rw [ih, isDefinition_congr hkind]
    by_cases hdef : node.isDefinition = true
    · rw [hnode (index?_eq_none_of_isDefinition hdef)]
    · simp [hdef]

theorem SameButIndexes.mem_trees {field : Tree} (hfield : field ∈ f'.trees)
    (hdef : field.node.isDefinition = true) : field ∈ f.trees := by
  induction h with
  | nil => exact hfield
  | cons node node' children siblings siblings' hkind hnode _ ih =>
    rcases mem_cons.mp hfield with heq | hfield
    · subst heq
      have hdef' : node.isDefinition = true := by
        rw [← isDefinition_congr hkind]
        exact hdef
      rw [hnode (index?_eq_none_of_isDefinition hdef')]
      exact mem_cons_self
    · exact mem_cons_of_mem _ (ih hfield)

theorem SameButIndexes.settled {s : Standing} (hf : f.Settled inside s) : f'.Settled inside s := by
  induction h with
  | nil => exact hf
  | cons node node' children siblings siblings' hkind hnode _ ih =>
    obtain ⟨hnode', hsiblings⟩ := hf
    refine ⟨?_, ih hsiblings⟩
    rw [isDefinition_congr hkind]
    by_cases hdef : node.isDefinition = true
    · rw [hnode (index?_eq_none_of_isDefinition hdef)]
      exact hnode'
    · rw [if_neg hdef] at hnode' ⊢
      rw [hkind]
      exact hnode'

theorem SameButIndexes.realized (hf : f.Realized t) : f'.Realized t := by
  induction h with
  | nil => exact hf
  | cons node node' children siblings siblings' hkind hnode _ ih =>
    obtain ⟨hnode', hchildren, hsiblings⟩ := hf
    refine ⟨?_, hchildren, ih hsiblings⟩
    intro hdef
    rw [isDefinition_congr hkind] at hdef
    rw [hnode (index?_eq_none_of_isDefinition hdef)]
    exact hnode' hdef

theorem SameButIndexes.holds {group : SymbolId} (hf : t.Holds group f) : t.Holds group f' where
  item := hf.item
  fields := by rw [h.fieldSymbols_eq, hf.fields]
  members field hfield hdef := hf.members field (h.mem_trees hfield hdef) hdef

end SameButIndexes

end Forest

/-- A list of symbols names each symbol as often as another one does, and the symbols of a range at most once more. -/
def Gains (low high : Nat) (before after : List SymbolId) : Prop :=
  ∀ id, after.count id ≤ before.count id + if low ≤ id ∧ id < high then 1 else 0

section Gains

variable {low middle high : Nat} {before after before' after' : List SymbolId} {id : SymbolId}

theorem Gains.refl (low high : Nat) (l : List SymbolId) : Gains low high l l := fun _ => Nat.le_add_right _ _

theorem Gains.mono {low' high' : Nat} (h : Gains low high before after) (hlow : low' ≤ low) (hhigh : high ≤ high') :
    Gains low' high' before after := by
  intro id
  have hid := h id
  split at hid
  · rename_i hrange
    rw [if_pos ⟨hlow.trans hrange.1, hrange.2.trans_le hhigh⟩]
    exact hid
  · exact hid.trans (Nat.add_le_add_left (Nat.zero_le _) _)

/-- What one part gains and what a later part gains do not overlap. -/
theorem Gains.append (h : Gains low middle before after) (h' : Gains middle high before' after')
    (hlow : low ≤ middle) (hhigh : middle ≤ high) : Gains low high (before ++ before') (after ++ after') := by
  intro id
  have hid := h id
  have hid' := h' id
  rw [count_append, count_append]
  split at hid <;> split at hid' <;> split <;> lia

theorem Gains.trans (h : Gains low middle before before') (h' : Gains middle high before' after)
    (hlow : low ≤ middle) (hhigh : middle ≤ high) : Gains low high before after := by
  intro id
  have hid := h id
  have hid' := h' id
  split at hid <;> split at hid' <;> split <;> lia

/-- A new symbol and what comes after it. -/
theorem Gains.cons (h : Gains (id + 1) high before after) (hid : id < high) : Gains id high before (id :: after) := by
  intro other
  have hother := h other
  rw [count_cons]
  split at hother <;> split <;> split <;> simp_all <;> lia

/-- One new symbol. -/
theorem Gains.single (hlow : low ≤ id) (hid : id < high) : Gains low high [] [id] :=
  ((Gains.refl (id + 1) high []).cons hid).mono hlow le_rfl

section

variable (h : Gains low high before after)
include h

/-- A part that gains makes the whole gain. -/
theorem Gains.append_left (others : List SymbolId) : Gains low high (others ++ before) (others ++ after) := by
  intro id
  have hid := h id
  rw [count_append, count_append]
  lia

theorem Gains.append_right (others : List SymbolId) : Gains low high (before ++ others) (after ++ others) := by
  intro id
  have hid := h id
  rw [count_append, count_append]
  lia

theorem Gains.more (others : List SymbolId) : Gains low high (others ++ before) after := by
  intro id
  have hid := h id
  rw [count_append]
  lia

end

/-- A node that gets a new symbol, and what its children and siblings get after it. -/
theorem Forest.gains_cons {node : Node} {children siblings children' siblings' : Forest}
    (h : Gains (id + 1) high (children.symbols ++ siblings.symbols) (children'.symbols ++ siblings'.symbols))
    (hid : id < high) :
    Gains id high (Forest.cons node children siblings).symbols
      (Forest.cons (node.bindSymbol id) children' siblings').symbols := by
  rw [symbols_cons, symbols_cons, append_assoc, append_assoc]
  exact (h.cons hid).more _

theorem Gains.mem (h : Gains low high before after) (hid : id ∈ after) : id ∈ before ∨ low ≤ id ∧ id < high := by
  have hcount : 0 < after.count id := count_pos_iff.mpr hid
  have hle := h id
  split at hle
  · rename_i hrange
    exact .inr hrange
  · exact .inl (count_pos_iff.mp (by lia))

/-- What gains new symbols only names no symbol twice. -/
theorem Gains.nodup (h : Gains low high before after) (hnodup : before.Nodup) (hlow : ∀ id ∈ before, id < low) :
    after.Nodup := by
  rw [nodup_iff_count]
  intro id
  have hle := h id
  have hbefore := nodup_iff_count.mp hnodup id
  split at hle
  · rename_i hrange
    have hnot : id ∉ before := fun hmem => hrange.1.not_gt (hlow id hmem)
    rw [count_eq_zero.mpr hnot] at hle
    exact hle
  · exact hle.trans hbefore

end Gains

end CobolSymbols
