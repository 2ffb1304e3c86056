import CobolSymbols.Proofs.Table.Detach

/-!
# Removing a program

A program is removed with everything that is entered into it, at any depth. No symbol is entered twice and none before
the symbol that it is entered into, so what a program holds is a tree: the walk that removes it ends and visits each
symbol once. What remains is a regular table again.
-/

set_option autoImplicit false

namespace CobolSymbols

open List Relation Symbol

theorem Scopes.count_members_modify (scopes : Scopes) (slot : ScopeSlot) (f : Scope SymbolId → Scope SymbolId)
    (x : SymbolId) : (scopes.modify slot f).members.count x + (scopes.get slot).order.count x =
      scopes.members.count x + (f (scopes.get slot)).order.count x := by
  cases slot <;>
    simp only [members, Labelled.all, flatMap_cons, flatMap_nil, get, modify, append_nil,
      count_append] <;> omega

namespace Symbol

theorem count_contents_modifyScope {s : Symbol} {slot : ScopeSlot} {scope : Scope SymbolId}
    (h : s.scope? slot = some scope) (f : Scope SymbolId → Scope SymbolId) (x : SymbolId) :
    (s.mapScopes fun scopes => scopes.modify slot f).contents.count x + scope.order.count x =
      s.contents.count x + (f scope).order.count x := by
  have hmembers : (s.mapScopes fun scopes => scopes.modify slot f).members.count x + scope.order.count x =
      s.members.count x + (f scope).order.count x := by
    unfold scope? at h
    unfold mapScopes members
    cases hbody : s.body with
    | root scopes | namespaceBody scopes =>
      rw [hbody] at h
      have hscope : scopes.get slot = scope := by cases slot <;> first | exact Option.some.inj h | cases h
      rw [← hscope]
      exact Scopes.count_members_modify scopes slot f x
    | program data | procedure data =>
      rw [hbody] at h
      have hscope : data.scopes.get slot = scope := by cases slot <;> first | exact Option.some.inj h | cases h
      have hcount := Scopes.count_members_modify data.scopes slot f x
      rw [hscope] at hcount
      simp only [ProgramData.members, count_append]
      omega
    | item data => simp [hbody] at h
    | paragraph heading => simp [hbody] at h
    | heading => simp [hbody] at h
  simp only [contents, count_append, fieldList_mapScopes]
  omega

/-- A symbol without scopes stays as it is when its scopes are changed. -/
theorem mapScopes_of_scope? {s : Symbol} (h : s.scope? .programs = none) (f : Scopes → Scopes) : s.mapScopes f = s := by
  unfold scope? at h
  unfold mapScopes
  cases hbody : s.body <;> simp [hbody] at h ⊢

end Symbol

namespace Table

variable {t t' : Table} {program id x : SymbolId} {base : Nat}

/-- A symbol is another one or lies in it at any depth. -/
def Under (t : Table) (top id : SymbolId) : Prop := ReflTransGen t.EnteredIn id top

theorem EnteredIn.mem {c : SymbolId} (h : t.EnteredIn id c) : id ∈ (t.get c).contents := by
  rw [← count_pos_iff]
  have hlisted : (t.get c).contents.count id = _ := h.listed c
  rw [hlisted, if_pos rfl]
  exact Nat.one_pos

theorem Under.le {top : SymbolId} (h : t.Under top id) : top ≤ id := by
  induction h with
  | refl => exact le_rfl
  | tail _ hentered ih => exact hentered.lt.le.trans ih

theorem lt_size_of_program (hkind : (t.get program).kind = .program) : program < t.size := by
  apply lt_size_of_get_ne
  intro hdefault
  rw [hdefault] at hkind
  cases hkind

theorem Sound.program_ne_root (hsound : t.Sound base) (hkind : (t.get program).kind = .program) : program ≠ rootId := by
  intro heq
  rcases (hsound.root program).mpr heq with hkind' | hkind' <;> rw [hkind] at hkind' <;> cases hkind'

section Walk

variable {c : SymbolId} {steps : Nat}

/-- In a regular table what a symbol lists is entered there. -/
theorem Regular.enteredIn (h : t.Regular) (hx : x ∈ (t.get c).contents) : t.EnteredIn x c := by
  have hlisted : (t.ledger x).listed c ≠ 0 := (count_pos_iff.mpr hx).ne'
  have hlt : x < t.size := by
    by_contra hge
    rw [h.tidy.beyond x (not_lt.mp hge)] at hlisted
    exact hlisted rfl
  rcases (h.standing x hlt).place with hnone | ⟨container, hentered, _⟩
  · exact absurd (hnone c) hlisted
  · rw [hentered.listed] at hlisted
    have heq : c = container := by
      by_contra hne
      exact hlisted (if_neg hne)
    exact heq ▸ hentered

theorem Regular.lt_size_of_entered (h : t.Regular) (hentered : t.EnteredIn x c) : x < t.size := by
  by_contra hge
  have hlisted := hentered.listed c
  rw [h.tidy.beyond x (not_lt.mp hge), if_pos rfl] at hlisted
  cases hlisted

theorem Regular.nodup_contents (h : t.Regular) (c : SymbolId) : (t.get c).contents.Nodup := by
  rw [nodup_iff_count_le_one]
  intro x
  by_cases hx : x ∈ (t.get c).contents
  · have hlisted : (t.get c).contents.count x = _ := (h.enteredIn hx).listed c
    rw [hlisted, if_pos rfl]
  · rw [count_eq_zero.mpr hx]
    exact Nat.zero_le 1

theorem held_sublist (t : Table) (c : SymbolId) : (t.held c).Sublist (t.get c).contents := by
  apply Sublist.append_right
  unfold Symbol.program? Symbol.members
  cases (t.get c).body <;> simp

/-- Everything but the root holds what is entered into it. -/
theorem held_eq (t : Table) (hkind : (t.get c).kind ≠ .root ∧ (t.get c).kind ≠ .namespaceKind) :
    t.held c = (t.get c).contents := by
  unfold held Symbol.contents
  unfold Symbol.kind at hkind
  unfold Symbol.program? Symbol.members
  cases hbody : (t.get c).body <;> simp [hbody, fields] at hkind ⊢

theorem Regular.enteredIn_of_held (h : t.Regular) (hx : x ∈ t.held c) : t.EnteredIn x c :=
  h.enteredIn ((t.held_sublist c).subset hx)

theorem Regular.under_of_mem (h : t.Regular) (hx : x ∈ t.ownedWithin steps id) : t.Under id x := by
  induction steps generalizing id with
  | zero => cases hx
  | succ steps ih =>
    rcases mem_cons.mp hx with heq | hx
    · rw [heq]
      exact ReflTransGen.refl
    · obtain ⟨child, hchild, hx⟩ := mem_flatMap.mp hx
      have hentered := h.enteredIn_of_held (mem_reverse.mp hchild)
      exact (ih hx).tail hentered

/-- A walk with as many steps as there are symbols from `id` on reaches everything that lies in it. -/
theorem mem_ownedWithin_of_under (hsound : t.Sound base) (hid : id ≠ rootId) (hlt : id < t.size)
    (hsteps : t.size ≤ id + steps) (hunder : t.Under id x) (hx : x < t.size) : x ∈ t.ownedWithin steps id := by
  induction steps generalizing id with
  | zero => exact absurd hlt hsteps.not_gt
  | succ steps ih =>
    rcases ReflTransGen.cases_tail hunder with heq | ⟨child, hunder', hentered⟩
    · rw [heq]
      exact mem_cons_self
    · have hkind : (t.get id).kind ≠ .root ∧ (t.get id).kind ≠ .namespaceKind := by
        have hroot := hsound.root id
        constructor
        · exact fun hkind => hid (hroot.mp (.inl hkind))
        · exact fun hkind => hid (hroot.mp (.inr hkind))
      have hchild : child ∈ t.held id := by
        rw [held_eq t hkind]
        exact hentered.mem
      have hpos : Nat.succ id ≤ child := hentered.lt
      refine mem_cons_of_mem _ (mem_flatMap.mpr ⟨child, mem_reverse.mpr hchild, ?_⟩)
      refine ih ?_ ?_ ?_ hunder'
      · intro hroot
        rw [hroot] at hpos
        exact Nat.not_lt_zero _ hpos
      · exact (Under.le hunder').trans_lt hx
      · omega

variable (h : t.Regular)
include h

/-- A symbol lies in one of the symbols that another one lists at most. -/
theorem Regular.disjoint_children {first second : SymbolId} (hfirst : first ∈ t.held id)
    (hsecond : second ∈ t.held id) (hxfirst : t.Under first x) (hxsecond : t.Under second x) : first = second := by
  have hentered : ∀ {child other : SymbolId}, child ∈ t.held id → other ∈ t.held id → t.Under other child →
      child = other := by
    intro child other hchild hother hunder
    rcases ReflTransGen.cases_head hunder with heq | ⟨container, hcont, hunder'⟩
    · exact heq
    · -- the container is the common one, which comes before all that it lists
      rw [hcont.unique (h.enteredIn_of_held hchild)] at hunder'
      exact absurd (h.enteredIn_of_held hother).lt (Under.le hunder').not_gt
  have hunique : Relator.RightUnique t.EnteredIn := fun _ _ _ hc hc' => hc.unique hc'
  rcases ReflTransGen.total_of_right_unique hunique hxfirst hxsecond with hunder | hunder
  · exact hentered hfirst hsecond hunder
  · exact (hentered hsecond hfirst hunder).symm

theorem Regular.nodup_ownedWithin (steps : Nat) (id : SymbolId) : (t.ownedWithin steps id).Nodup := by
  induction steps generalizing id with
  | zero => exact nodup_nil
  | succ steps ih =>
    refine nodup_cons.mpr ⟨?_, ?_⟩
    · intro hid
      obtain ⟨child, hchild, hid⟩ := mem_flatMap.mp hid
      have hentered := h.enteredIn_of_held (mem_reverse.mp hchild)
      exact absurd hentered.lt (h.under_of_mem hid).le.not_gt
    · refine nodup_flatMap.mpr ⟨fun child _ => ih child, ?_⟩
      have hnodup : (t.held id).reverse.Nodup :=
        nodup_reverse.mpr ((h.nodup_contents id).sublist (t.held_sublist id))
      refine (List.Pairwise.and_mem.mp hnodup).imp ?_
      rintro first second ⟨hfirst, hsecond, hne⟩ x hxfirst hxsecond
      exact hne (h.disjoint_children (mem_reverse.mp hfirst) (mem_reverse.mp hsecond)
        (h.under_of_mem hxfirst) (h.under_of_mem hxsecond))

/-- The number of steps does not matter once it is large enough. -/
theorem Regular.ownedWithin_eq {steps' : Nat} (hsteps : t.size ≤ id + steps)
    (hsteps' : t.size ≤ id + steps') (hlt : id < t.size) : t.ownedWithin steps id = t.ownedWithin steps' id := by
  induction steps generalizing id steps' with
  | zero => exact absurd hlt hsteps.not_gt
  | succ steps ih =>
    cases steps' with
    | zero => exact absurd hlt hsteps'.not_gt
    | succ steps' =>
      have hchildren : ∀ child ∈ (t.held id).reverse, t.ownedWithin steps child = t.ownedWithin steps' child := by
        intro child hchild
        have hentered := h.enteredIn_of_held (mem_reverse.mp hchild)
        have hpos : Nat.succ id ≤ child := hentered.lt
        refine ih ?_ ?_ (h.lt_size_of_entered hentered)
        · omega
        · omega
      unfold ownedWithin
      rw [flatMap_congr hchildren]

theorem Regular.mem_owned (hsound : t.Sound base) (hkind : (t.get id).kind = .program) :
    x ∈ t.owned id ↔ t.Under id x ∧ x < t.size := by
  have hlt := lt_size_of_program hkind
  constructor
  · intro hx
    have hunder := h.under_of_mem hx
    refine ⟨hunder, ?_⟩
    rcases ReflTransGen.cases_head hunder with heq | ⟨container, hentered, _⟩
    · rw [heq]
      exact hlt
    · exact h.lt_size_of_entered hentered
  · rintro ⟨hunder, hx⟩
    exact mem_ownedWithin_of_under hsound (hsound.program_ne_root hkind) hlt (Nat.le_add_left _ _) hunder hx

theorem Regular.self_mem_owned (hsound : t.Sound base) (hkind : (t.get id).kind = .program) : id ∈ t.owned id :=
  (h.mem_owned hsound hkind).mpr ⟨.refl, lt_size_of_program hkind⟩

end Walk

section Delist

/-- The table in which the owner of a program no longer lists it among its programs. -/
def delist (t : Table) (program : SymbolId) : Table :=
  match (t.get program).owner with
  | some owner => t.modifyScope (.slot owner .programs) fun s => s.without (t.name program) program
  | none => t

theorem removeProgram_of_removed (h : (t.get program).isRemoved = true) : t.removeProgram program = (0, t) := by
  unfold removeProgram
  rw [if_pos h]

theorem removeProgram_of_present (h : (t.get program).isRemoved = false) : t.removeProgram program =
    (((t.delist program).owned program).length, ((t.delist program).owned program).foldl detach (t.delist program)) := by
  unfold removeProgram
  rw [if_neg (by simp [h])]
  rfl

theorem get_delist (t : Table) (program x : SymbolId) : (t.delist program).get x =
    if (t.get program).owner = some x then
      (t.get x).mapScopes fun scopes => scopes.modify .programs fun s => s.without (t.name program) program
    else t.get x := by
  unfold delist
  cases howner : (t.get program).owner with
  | none => simp
  | some owner =>
    simp only [modifyScope]
    cases hscope : (t.get owner).scope? .programs with
    | none =>
      by_cases hx : x = owner
      · rw [hx, if_pos rfl, mapScopes_of_scope? hscope]
      · rw [if_neg fun heq => hx (Option.some.inj heq).symm]
    | some scope =>
      have hlt : owner < t.size := by
        apply lt_size_of_get_ne
        intro hdefault
        rw [hdefault] at hscope
        cases hscope
      by_cases hx : x = owner
      · simp only [hx, if_true]
        exact get_modify_self _ hlt
      · rw [if_neg fun heq => hx (Option.some.inj heq).symm]
        exact get_modify_of_ne _ hx

theorem delist_rest (t : Table) (program : SymbolId) : (t.delist program).size = t.size ∧
    (t.delist program).types = t.types ∧ (t.delist program).programs = t.programs ∧
    (t.delist program).slots = t.slots := by
  unfold delist
  cases (t.get program).owner with
  | none => exact ⟨rfl, rfl, rfl, rfl⟩
  | some owner =>
    simp only [modifyScope]
    split
    · exact ⟨size_modify _ _ _, rfl, rfl, rfl⟩
    · exact ⟨rfl, rfl, rfl, rfl⟩

/-- A view that does not see scopes is kept. -/
theorem view_delist {α : Type} (view : Symbol → α) (hview : ∀ (s : Symbol) (f : Scopes → Scopes), view (s.mapScopes f) = view s)
    (t : Table) (program x : SymbolId) : view ((t.delist program).get x) = view (t.get x) := by
  rw [get_delist]
  split
  · exact hview _ _
  · rfl

theorem identity_delist (t : Table) (program x : SymbolId) : ((t.delist program).get x).identity = (t.get x).identity :=
  view_delist Symbol.identity identity_mapScopes t program x

theorem Filed.delist (h : t.Filed) (program : SymbolId) : (t.delist program).Filed := by
  obtain ⟨_, htypes, hprogs, _⟩ := t.delist_rest program
  have hkind : ∀ x, ((t.delist program).get x).kind = (t.get x).kind := fun x =>
    congrArg (·.2.2.1) (t.identity_delist program x)
  have hname : ∀ x, (t.delist program).name x = t.name x := fun x => congrArg (·.1) (t.identity_delist program x)
  have hlookup : (t.delist program).lookupType = t.lookupType ∧ (t.delist program).lookupProgram = t.lookupProgram := by
    unfold lookupType lookupProgram
    rw [htypes, hprogs]
    exact ⟨rfl, rfl⟩
  constructor <;> simp only [htypes, hprogs, hkind, hname, hlookup]
  · exact h.types_keyed
  · exact h.types_nodup
  · exact h.types_only
  · exact h.programs_keyed
  · exact h.programs_nodup
  · exact h.programs_only

theorem slot?_delist (t : Table) (program x : SymbolId) : ((t.delist program).get x).slot? = (t.get x).slot? :=
  view_delist Symbol.slot? (fun s f => by simp [Symbol.slot?]) t program x

/-- A walk from a symbol sees nothing of what comes before the symbol. -/
theorem ownedWithin_congr (hheld : ∀ c, id ≤ c → t'.held c = t.held c) (hle : ∀ c x, x ∈ t.held c → c ≤ x)
    (steps : Nat) : t'.ownedWithin steps id = t.ownedWithin steps id := by
  induction steps generalizing id with
  | zero => rfl
  | succ steps ih =>
    unfold ownedWithin
    rw [hheld id le_rfl]
    refine congrArg (id :: ·) (flatMap_congr fun child hchild => ?_)
    refine ih fun c hc => hheld c ?_
    exact (hle id child (mem_reverse.mp hchild)).trans hc

variable (h : t.Regular)
include h

theorem Regular.nodup_order {c : SymbolId} {slot : ScopeSlot} {scope : Scope SymbolId}
    (hscope : (t.get c).scope? slot = some scope) : scope.order.Nodup := by
  rw [nodup_iff_count_le_one]
  intro x
  have hcount := count_contents_modifyScope hscope (fun _ => {}) x
  have hle := nodup_iff_count_le_one.mp (h.nodup_contents c) x
  simp only [count_nil] at hcount
  omega

/-- The owner of a program loses the program, if it lists it among its programs, and nothing else is lost. -/
theorem Regular.count_delist {owner : SymbolId} {scope : Scope SymbolId}
    (howner : (t.get program).owner = some owner) (hscope : (t.get owner).scope? .programs = some scope)
    (c x : SymbolId) : ((t.delist program).get c).contents.count x =
      if c = owner ∧ x = program ∧ program ∈ scope.order then 0 else (t.get c).contents.count x := by
  by_cases hc : c = owner
  · subst hc
    have horder := (h.indexed.scopes c .programs scope hscope).order_without (h.nodup_order hscope) program
    have hcount := count_contents_modifyScope hscope (fun s => s.without (t.name program) program) x
    rw [horder] at hcount
    rw [get_delist, howner, if_pos rfl]
    by_cases hx : x = program
    · subst hx
      have hnone : (scope.order.filter (· ≠ x)).count x = 0 := by
        rw [count_eq_zero]
        simp
      have hle := nodup_iff_count_le_one.mp (h.nodup_contents c) x
      by_cases hmem : x ∈ scope.order
      · have hpos := count_pos_iff.mpr hmem
        rw [if_pos ⟨rfl, rfl, hmem⟩]
        omega
      · rw [count_eq_zero.mpr hmem] at hcount
        rw [if_neg fun h => hmem h.2.2]
        omega
    · have hsame : (scope.order.filter (· ≠ program)).count x = scope.order.count x :=
        count_filter (by simpa using hx)
      rw [if_neg fun h => hx h.2.1]
      omega
  · rw [get_delist, howner, if_neg fun heq => hc (Option.some.inj heq).symm, if_neg fun h => hc h.1]

/-- A program whose owner has stopped to list it is entered nowhere or where it was; all others are where they were. -/
theorem Regular.listed_delist (program : SymbolId) :
    (∀ x, x ≠ program → ((t.delist program).ledger x).listed = (t.ledger x).listed) ∧
      (((t.delist program).ledger program).listed = (t.ledger program).listed ∨ (t.delist program).Unlisted program) := by
  have hsame : (∀ c, (t.delist program).get c = t.get c) → ∀ x,
      ((t.delist program).ledger x).listed = (t.ledger x).listed := by
    intro hget x
    funext c
    simp only [ledger, hget]
  cases howner : (t.get program).owner with
  | none =>
    have hlisted := hsame fun c => by simp [get_delist, howner]
    exact ⟨fun x _ => hlisted x, .inl (hlisted program)⟩
  | some owner =>
    cases hscope : (t.get owner).scope? .programs with
    | none =>
      have hlisted := hsame fun c => by
        rw [get_delist, howner]
        split
        · rename_i heq
          exact mapScopes_of_scope? (Option.some.inj heq ▸ hscope) _
        · rfl
      exact ⟨fun x _ => hlisted x, .inl (hlisted program)⟩
    | some scope =>
      have hcount := h.count_delist howner hscope
      refine ⟨?_, ?_⟩
      · intro x hx
        funext c
        simp only [ledger]
        rw [hcount, if_neg fun h => hx h.2.1]
      · by_cases hmem : program ∈ scope.order
        · right
          intro c
          simp only [ledger]
          rw [hcount]
          split
          · rfl
          · rename_i hc
            -- the owner lists the program, so no other symbol does
            have hpos : program ∈ (t.get owner).contents := by
              have hother := count_contents_modifyScope hscope (fun _ => {}) program
              have hmem' := count_pos_iff.mpr hmem
              simp only [count_nil] at hother
              rw [← count_pos_iff]
              omega
            have hlisted : (t.get c).contents.count program = _ := (h.enteredIn hpos).listed c
            rw [hlisted, if_neg fun heq => hc ⟨heq, rfl, hmem⟩]
        · left
          funext c
          simp only [ledger]
          rw [hcount, if_neg fun h => hmem h.2.2]

theorem Regular.filed : t.Filed := by
  have hlt : ∀ {name x}, x ∈ t.lookupType name ∨ x ∈ t.lookupProgram name → x < t.size := by
    intro name x hx
    by_contra hge
    have hblank := h.tidy.beyond x (not_lt.mp hge)
    rcases hx with hx | hx
    · have hcount : (t.lookupType name).count x = 0 := congrArg (fun l => Ledger.types l name) hblank
      exact count_eq_zero.mp hcount hx
    · have hcount : (t.lookupProgram name).count x = 0 := congrArg (fun l => Ledger.programs l name) hblank
      exact count_eq_zero.mp hcount hx
  refine ⟨h.indexed.types, ?_, ?_, h.indexed.programs, ?_, ?_⟩
  · intro name
    rw [nodup_iff_count_le_one]
    intro x
    by_cases hx : x ∈ t.lookupType name
    · have hcount : (t.lookupType name).count x = _ := (h.standing x (hlt (.inl hx))).types name
      rw [hcount]
      split <;> omega
    · rw [count_eq_zero.mpr hx]
      exact Nat.zero_le 1
  · intro name x hx
    have hcount : (t.lookupType name).count x = _ := (h.standing x (hlt (.inl hx))).types name
    have hpos := count_pos_iff.mpr hx
    rw [hcount] at hpos
    by_contra hnot
    rw [if_neg fun hand => hnot hand.1] at hpos
    cases hpos
  · intro name
    rw [nodup_iff_count_le_one]
    intro x
    by_cases hx : x ∈ t.lookupProgram name
    · have hcount : (t.lookupProgram name).count x ≤ _ := (h.standing x (hlt (.inr hx))).programs name
      refine hcount.trans ?_
      split <;> omega
    · rw [count_eq_zero.mpr hx]
      exact Nat.zero_le 1
  · intro name x hx
    have hcount : (t.lookupProgram name).count x ≤ _ := (h.standing x (hlt (.inr hx))).programs name
    have hpos := (count_pos_iff.mpr hx).trans_le hcount
    by_contra hnot
    rw [if_neg fun hand => hnot hand.1] at hpos
    cases hpos

theorem Regular.owned_delist (program : SymbolId) : (t.delist program).owned program = t.owned program := by
  unfold owned
  rw [(t.delist_rest program).1]
  refine ownedWithin_congr (fun c hc => ?_) (fun c x hx => (h.enteredIn_of_held hx).lt.le) _
  have hsame : (t.delist program).get c = t.get c := by
    rw [get_delist, if_neg]
    intro howner
    exact absurd (h.tidy.ordered program c howner) hc.not_gt
  unfold held fields
  rw [hsame]

end Delist

section Removal

variable {item : SymbolId} {ids : List SymbolId}

/-- A program is removed by detaching what it owns, each symbol once. -/
theorem Regular.detached_removeProgram (h : t.Regular) (hsound : t.Sound base)
    (hkind : (t.get program).kind = .program) (hpresent : (t.get program).isRemoved = false) :
    Detached (t.owned program) (t.delist program) (t.removeProgram program).2 := by
  rw [removeProgram_of_present hpresent, h.owned_delist]
  refine detached_foldl (h.filed.delist program) ?_ (h.nodup_ownedWithin _ _) ?_
  · exact h.tidy.slots.congr (t.delist_rest program).2.2.2 (t.slot?_delist program)
  · intro x hx
    rw [(t.delist_rest program).1]
    exact ((h.mem_owned hsound hkind).mp hx).2

/-- A symbol that is detached keeps its place, or is entered nowhere. -/
theorem Standing.detached (h : t.Standing x) (hext : Extends t t') (ht : t.Ordered) (hx : x < t.size)
    {listed : SymbolId → Nat} (hledger : t'.ledger x = { (t.ledger x).detached with listed := listed })
    (hlisted : listed = (t.ledger x).listed ∨ ∀ c, listed c = 0)
    (hstorage : ∀ id, id < t.size → (t'.ledger id).storage = (t.ledger id).storage)
    (hbelow : ∀ item, t.Sectionless item → ¬ t.Within item x) : t'.Standing x := by
  have hremoved : (t'.ledger x).removed = true := by
    rw [hledger]
    rfl
  have hplace : ∀ c, (t'.ledger x).listed c = listed c := fun c => by rw [hledger]
  have hsectionless := hext.sectionless_iff ht hx (hstorage x hx)
  constructor
  case place =>
    rcases hlisted with hsame | hnone
    · rcases h.place with hnone | ⟨container, hentered, htogether⟩
      · left
        intro c
        rw [hplace, hsame]
        exact hnone c
      · refine .inr ⟨container, ⟨?_, hentered.lt, ?_⟩, ?_⟩
        · intro c
          rw [hplace, hsame]
          exact hentered.listed c
        · rw [hext.ownedBy_iff hx, hext.kind hx, hext.kind (hentered.lt.trans hx)]
          exact hentered.owner
        · exact htogether.extends hext ht hx (hentered.lt.trans hx)
    · left
      intro c
      rw [hplace, hnone]
  case closed => exact fun _ _ _ => hremoved
  case complete =>
    intro _ hpresent
    rw [hremoved] at hpresent
    cases hpresent
  case aside => exact fun hsection => absurd ReflTransGen.refl (hbelow x (hsectionless.mp hsection))
  case inner =>
    intro owner hown
    have hown' := (hext.ownedBy_iff hx).mp hown
    rw [hext.kind hx, hext.kind ((ht x owner hown').trans hx)]
    exact h.inner owner hown'
  case below =>
    intro item hsection hwithin
    rw [hext.within_iff ht hx] at hwithin
    have hitem : item < t.size := (hwithin.le ht).trans_lt hx
    rw [hext.sectionless_iff ht hitem (hstorage item hitem)] at hsection
    exact absurd hwithin (hbelow item hsection)
  case slot => simp [hledger, Ledger.detached]
  case types => simp [hledger, Ledger.detached]
  case programs => simp [hledger, Ledger.detached]

theorem ledger_delist (t : Table) (program x : SymbolId) : (t.delist program).ledger x =
    { t.ledger x with listed := ((t.delist program).ledger x).listed } := by
  obtain ⟨_, htypes, hprogs, _⟩ := t.delist_rest program
  have hflags := view_delist Symbol.flags (fun s f => by simp) t program x
  simp only [ledger, lookupType, lookupProgram, htypes, hprogs, slot?_delist, Symbol.isRemoved, hflags]

theorem Detached.extends (h : Detached ids (t.delist program) t') : t.Extends t' :=
  Extends.of_get (h.size_eq.trans (t.delist_rest program).1) fun x => (h.identity x).trans (t.identity_delist program x)

theorem Detached.storage (h : Detached ids (t.delist program) t') (x : SymbolId) :
    (t'.ledger x).storage = (t.ledger x).storage := by
  rw [h.ledger, ledger_delist]
  split <;> rfl

/-- Removing a program keeps every view that sees neither scopes nor what is detached. -/
theorem Regular.view_removeProgram {α : Type} (h : t.Regular) (view : Symbol → α) (hsound : t.Sound base)
    (hkind : (t.get program).kind = .program) (hscopes : ∀ (s : Symbol) (f : Scopes → Scopes), view (s.mapScopes f) = view s)
    (hview : ∀ s : Symbol, view s.detached = view s) (id : SymbolId) :
    view ((t.removeProgram program).2.get id) = view (t.get id) := by
  cases hpresent : (t.get program).isRemoved with
  | true => rw [removeProgram_of_removed hpresent]
  | false =>
    have hdetached := h.detached_removeProgram hsound hkind hpresent
    rw [hdetached.get]
    refine Eq.trans ?_ (view_delist view hscopes t program id)
    split
    · exact hview _
    · rfl

variable (h : t.Regular)
include h

/-- What lies in a data item is a data item. -/
theorem Regular.isItem_of_within (hitem : (t.get item).kind.isItem = true)
    (hwithin : t.Within item x) : (t.get x).kind.isItem = true := by
  induction hwithin using ReflTransGen.head_induction_on with
  | refl => exact hitem
  | head hown _ ih => exact (h.standing _ hown.lt_size).inner _ hown ih

/-- Going up from what lies in an item outside of every storage section one does not leave the item, which is entered
nowhere. -/
theorem Regular.within_of_under {top : SymbolId} (hsection : t.Sectionless item)
    (hwithin : t.Within item x) (hunder : t.Under top x) : t.Within item top := by
  induction hunder with
  | refl => exact hwithin
  | tail _ hentered ih =>
    rcases Table.within_iff.mp ih with heq | ⟨owner, hown, howner⟩
    · obtain ⟨owner, hown, _⟩ := hsection.owner
      have hnone := (h.standing item hown.lt_size).aside hsection
      exact absurd hentered (heq ▸ hnone).not_enteredIn
    · rcases hentered.owner with hcont | ⟨hparagraph, _⟩
      · rw [Option.some.inj (hcont.symm.trans hown)]
        exact howner
      · have hitem := h.isItem_of_within hsection.item ih
        rw [hparagraph] at hitem
        cases hitem

/-- What lies in an item outside of every storage section is entered into no program. -/
theorem Regular.not_under (hkind : (t.get program).kind.isItem = false)
    (hsection : t.Sectionless item) (hwithin : t.Within item x) : ¬ t.Under program x := by
  intro hunder
  have hitem := h.isItem_of_within hsection.item (h.within_of_under hsection hwithin hunder)
  rw [hkind] at hitem
  cases hitem

/-- The ledgers of a table from which a program has been removed. -/
theorem Regular.ledger_removed (hmem : program ∈ ids) (hdetached : Detached ids (t.delist program) t') :
    (∀ x, x ∉ ids → t'.ledger x = t.ledger x) ∧ ∀ x ∈ ids, ∃ listed,
      t'.ledger x = { (t.ledger x).detached with listed := listed } ∧
        (listed = (t.ledger x).listed ∨ ∀ c, listed c = 0) := by
  obtain ⟨hothers, hprog⟩ := h.listed_delist program
  refine ⟨fun x hx => ?_, fun x hx => ?_⟩
  · have hne : x ≠ program := fun heq => hx (heq ▸ hmem)
    rw [hdetached.ledger, if_neg hx, ledger_delist, hothers x hne]
  · refine ⟨((t.delist program).ledger x).listed, ?_, ?_⟩
    · rw [hdetached.ledger, if_pos hx, ledger_delist]
      rfl
    · by_cases hne : x = program
      · exact hne ▸ hprog
      · exact .inl (hothers x hne)

theorem Regular.tidy_removed (hmem : program ∈ ids)
    (hlt : ∀ x ∈ ids, x < t.size) (hdetached : Detached ids (t.delist program) t') : t'.Tidy where
  ordered id owner hown := by
    refine h.tidy.ordered id owner ((hdetached.extends.ownedBy_iff ?_).mp hown)
    have hsize : t'.size = t.size := hdetached.size_eq.trans (t.delist_rest program).1
    exact hsize ▸ hown.lt_size
  beyond id hid := by
    have hsize : t'.size = t.size := hdetached.size_eq.trans (t.delist_rest program).1
    rw [hsize] at hid
    have hnot : id ∉ ids := fun hmem => hid.not_gt (hlt id hmem)
    rw [(h.ledger_removed hmem hdetached).1 id hnot]
    exact h.tidy.beyond id hid
  slots := hdetached.slotsAgree
  groups id hid := by
    have hfields : (t'.get id).fields? = (t.get id).fields? := by
      have hdelisted := view_delist Symbol.fields? (fun s f => by simp [Symbol.fields?]) t program id
      rw [hdetached.get, ← hdelisted]
      split
      · exact fields?_detached _
      · rfl
    rw [hfields] at hid
    have hkind : (t'.get id).kind = (t.get id).kind :=
      congrArg (·.2.2.1) ((hdetached.identity id).trans (t.identity_delist program id))
    rw [hkind]
    exact h.tidy.groups id hid

theorem Regular.indexed_removed (hdetached : Detached ids (t.delist program) t') : t'.Indexed where
  scopes id slot scope hscope := by
    have hsame : (t'.get id).scope? = ((t.delist program).get id).scope? := by
      rw [hdetached.get]
      split
      · exact scope?_mapItem _ _
      · rfl
    rw [hsame, get_delist] at hscope
    split at hscope
    · rw [scope?_mapScopes] at hscope
      obtain ⟨old, hold, heq⟩ := Option.map_eq_some_iff.mp hscope
      have hindexed := h.indexed.scopes id slot old hold
      split at heq
      · rw [← heq]
        exact (hindexed.without (h.nodup_order hold) program).extends hdetached.extends
      · exact heq ▸ hindexed.extends hdetached.extends
    · exact (h.indexed.scopes id slot scope hscope).extends hdetached.extends
  types := hdetached.types_keyed
  programs := hdetached.programs_keyed

/-- Removing a program changes what identifies no symbol. -/
theorem Regular.extends_removeProgram (hsound : t.Sound base) (hkind : (t.get program).kind = .program) :
    t.Extends (t.removeProgram program).2 ∧ (t.removeProgram program).2.size = t.size := by
  cases hpresent : (t.get program).isRemoved with
  | true =>
    rw [removeProgram_of_removed hpresent]
    exact ⟨Extends.refl t, rfl⟩
  | false =>
    have hdetached := h.detached_removeProgram hsound hkind hpresent
    exact ⟨hdetached.extends, hdetached.size_eq.trans (t.delist_rest program).1⟩

/-- Removing a program leaves a regular table. -/
theorem Regular.removeProgram (hsound : t.Sound base) (hkind : (t.get program).kind = .program) :
    (t.removeProgram program).2.Regular := by
  cases hpresent : (t.get program).isRemoved with
  | true =>
    rw [removeProgram_of_removed hpresent]
    exact h
  | false =>
    have hroot := hsound.program_ne_root hkind
    have hdetached := h.detached_removeProgram hsound hkind hpresent
    have hmem : ∀ x, x ∈ t.owned program ↔ t.Under program x ∧ x < t.size := fun x => h.mem_owned hsound hkind
    have hself := h.self_mem_owned hsound hkind
    -- neither the root nor the variable that stands for no storage can be reached
    have hnot : ∀ id, id ≤ bottomId → id ≠ program → id ∉ t.owned program := by
      intro id hle hne hid
      rcases ReflTransGen.cases_head ((hmem id).mp hid).1 with heq | ⟨container, hentered, hunder⟩
      · exact hne heq
      · have hcont : container ≤ rootId := Nat.le_of_lt_succ (hentered.lt.trans_le hle)
        exact hroot (((Under.le hunder).trans hcont).antisymm (Nat.zero_le _))
    have hbottom : bottomId ≠ program := by
      intro heq
      have hslot := (h.standing bottomId h.bottom_lt).slot.mp (by rw [h.bottom]; rfl)
      rw [heq, hkind] at hslot
      cases hslot.1.1
    obtain ⟨hkept, hgone⟩ := h.ledger_removed hself hdetached
    refine ⟨h.tidy_removed hself (fun x hx => ((hmem x).mp hx).2) hdetached, ?_, h.indexed_removed hdetached, ?_, ?_⟩
    · intro x hx
      have hx' : x < t.size := by
        have hsize := hdetached.size_eq.trans (t.delist_rest program).1
        exact hsize ▸ hx
      by_cases hin : x ∈ t.owned program
      · obtain ⟨listed, hledger, hlisted⟩ := hgone x hin
        refine (h.standing x hx').detached hdetached.extends h.tidy.ordered hx' hledger hlisted
          (fun id _ => hdetached.storage id) fun item hsection hwithin => ?_
        refine h.not_under ?_ hsection hwithin ((hmem x).mp hin).1
        rw [hkind]
        rfl
      · refine (h.standing x hx').congr hdetached.extends h.tidy.ordered hx' (hkept x hin) ?_
          fun id _ => hdetached.storage id
        intro container hentered hremoved
        have hcont : container ∉ t.owned program := by
          intro hcont
          exact hin ((hmem x).mpr ⟨((hmem container).mp hcont).1.head hentered, hx'⟩)
        rw [hkept container hcont] at hremoved
        exact hremoved
    · rw [hkept rootId (hnot rootId (by decide) hroot.symm)]
      exact h.root
    · rw [hkept bottomId (hnot bottomId le_rfl hbottom)]
      exact h.bottom

end Removal

end Table

end CobolSymbols
