import CobolSymbols.Table.Removal

/-!
# Reading a table after a change

What the symbols of a table are after each elementary change. A change of one symbol leaves the others as they are, a
new symbol gets the number that is next, and the domains and slots of a table are no part of its symbols.
-/

set_option autoImplicit false

namespace CobolSymbols.Table

variable {t : Table} {id j : SymbolId}

theorem get_of_size_le (h : t.size ≤ id) : t.get id = default := by
  unfold size at h
  simp [get, h]

theorem lt_size_of_get_ne (h : t.get id ≠ default) : id < t.size :=
  Nat.lt_of_not_le fun hge => h (get_of_size_le hge)

/-- What does not hold of the symbol outside of a table holds of symbols in it only. -/
theorem lt_size_of_get (P : Symbol → Prop) (h : P (t.get id)) (hdefault : ¬ P default) : id < t.size :=
  lt_size_of_get_ne fun heq => hdefault (heq ▸ h)

@[simp] theorem size_modify (t : Table) (id : SymbolId) (f : Symbol → Symbol) : (t.modify id f).size = t.size := by
  simp [modify, size]

theorem get_modify (t : Table) (id : SymbolId) (f : Symbol → Symbol) (j : SymbolId) :
    (t.modify id f).get j = if j = id ∧ j < t.size then f (t.get j) else t.get j := by
  by_cases hj : j < t.size
  · have hj' : j < t.symbols.size := hj
    by_cases hid : j = id
    · subst hid
      simp [get, modify, size, Array.getElem_modify, hj']
    · have hne : id ≠ j := fun h => hid h.symm
      simp [get, modify, Array.getElem?_modify, hid, hne]
  · have hsize : (t.modify id f).size ≤ j := by simpa using hj
    rw [get_of_size_le hsize, get_of_size_le (Nat.le_of_not_lt hj)]
    simp [hj]

theorem get_modify_self (f : Symbol → Symbol) (h : id < t.size) : (t.modify id f).get id = f (t.get id) := by
  simp [get_modify, h]

theorem get_modify_of_ne (f : Symbol → Symbol) (h : j ≠ id) : (t.modify id f).get j = t.get j := by
  simp [get_modify, h]

/-- A view that a change of symbols keeps is kept for every symbol of the table. -/
theorem view_modify {α : Type} (view : Symbol → α) {f : Symbol → Symbol}
    (h : view (f (t.get id)) = view (t.get id)) (j : SymbolId) : view ((t.modify id f).get j) = view (t.get j) := by
  rw [get_modify]
  split
  · rename_i hj
    rw [hj.1, h]
  · rfl

@[simp] theorem alloc_fst (t : Table) (s : Symbol) : (t.alloc s).1 = t.size := rfl

@[simp] theorem size_alloc (t : Table) (s : Symbol) : (t.alloc s).2.size = t.size + 1 := by
  simp [alloc, size]

theorem get_alloc (t : Table) (s : Symbol) (j : SymbolId) :
    (t.alloc s).2.get j = if j = t.size then s else t.get j := by
  by_cases hj : j = t.size
  · subst hj
    simp [alloc, get, size]
  · have hj' : j ≠ t.symbols.size := hj
    simp [alloc, get, Array.getElem?_push, hj, hj']

@[simp] theorem get_alloc_self (t : Table) (s : Symbol) : (t.alloc s).2.get t.size = s := by
  simp [get_alloc]

theorem get_alloc_of_ne (s : Symbol) (h : j ≠ t.size) : (t.alloc s).2.get j = t.get j := by
  simp [get_alloc, h]

theorem get_alloc_of_lt (s : Symbol) (h : j < t.size) : (t.alloc s).2.get j = t.get j :=
  get_alloc_of_ne s (Nat.ne_of_lt h)

@[simp] theorem size_modifyScope (t : Table) (ref : ScopeRef) (f : Scope SymbolId → Scope SymbolId) :
    (t.modifyScope ref f).size = t.size := by
  unfold modifyScope
  cases ref with
  | slot owner slot =>
    simp only
    split <;> simp
  | fields owner => simp

@[simp] theorem size_enter (t : Table) (ref : ScopeRef) (id : SymbolId) : (t.enter ref id).size = t.size := by
  simp [enter]

theorem enter_slot (t : Table) (owner : SymbolId) (slot : ScopeSlot) (id : SymbolId) :
    t.enter (.slot owner slot) id =
      match (t.get owner).scope? slot with
      | some _ => t.modify owner (Symbol.mapScopes fun scopes => scopes.modify slot fun s => s.enter (t.name id) id)
      | none => t := rfl

theorem enter_fields (t : Table) (owner id : SymbolId) :
    t.enter (.fields owner) id =
      t.modify owner fun s => { s with type := s.type.map (DataType.mapFields fun s => s.enter (t.name id) id) } := rfl

theorem get_enter_of_ne {ref : ScopeRef} (id : SymbolId) (h : j ≠ ref.owner) : (t.enter ref id).get j = t.get j := by
  cases ref with
  | slot owner slot =>
    rw [enter_slot]
    split
    · exact get_modify_of_ne _ h
    · rfl
  | fields owner => exact get_modify_of_ne _ h

variable (t)

@[simp] theorem size_addToDomain (program id : SymbolId) : (t.addToDomain program id).size = t.size := by
  simp [addToDomain]

@[simp] theorem size_registerType (id : SymbolId) : (t.registerType id).size = t.size := rfl

theorem addVariable_get (id j : SymbolId) :
    (t.addVariable id).2.get j =
      (t.modify id (Symbol.mapItem fun data => { data with variableSlot := some (t.slots.insert id).1 })).get j := rfl

@[simp] theorem size_addVariable (id : SymbolId) : (t.addVariable id).2.size = t.size := by
  simp [addVariable, modify, size]

end CobolSymbols.Table
