import CobolSymbols.Proofs.Session.Purge

/-!
# Sessions keep their table regular

A session builds units, for the first time or again, and programs are removed from its table, in any order. The table
that it starts with is regular, and it stays so.
-/

set_option autoImplicit false

namespace CobolSymbols

open List Declarations

/-- What can be asked of a session: to build a unit, to detach the programs of a file, or to remove a program. -/
inductive Action where
  | build (request : Request)
  | detach (file : FileId)
  | remove (program : SymbolId)

namespace Session

/-- Do what is asked; what is no program is not removed. -/
def perform (s : Session) : Action → Session
  | .build request => (s.serve request).2
  | .detach file => s.detach file
  | .remove program =>
    if (s.table.get program).kind = .program then
      { s with context := s.context.mapTable fun t => (t.removeProgram program).2 }
    else s

/-- The session after a number of actions. -/
def reached (options : Options) (actions : List Action) : Session := actions.foldl perform (start options)

end Session

namespace Table

theorem sectionless_initial (id : SymbolId) : ¬ initial.Sectionless id := by
  rintro ⟨_, _, ⟨owner, hown, hkind⟩, _⟩
  rw [(owner_initial hown).1] at hkind
  exact absurd hkind (by decide)

theorem Indexed.addBuiltin {t : Table} (h : t.Indexed) (hroot : rootId < t.size) (name : String)
    (usage : UsageFormat) : (t.addBuiltin name usage).Indexed := by
  have hentered : ∀ s : Symbol, (∀ slot, s.scope? slot = none) →
      ((t.alloc s).2.enter (.slot rootId .types) t.size).Indexed := by
    intro s hs
    refine (h.alloc fun slot scope hscope => ?_).enter hroot ?_
    · rw [hs] at hscope
      cases hscope
    · rw [size_alloc]
      exact Nat.lt_succ_self _
  have hall := hentered
    { name, flags := .ofList [.builtinType, .exported, .weakType], owner := some rootId, type := some (.usage usage)
      position := .synthetic, body := .item { level := 1, kind := .typeDefinition .weak [] } } fun _ => rfl
  exact ⟨fun id slot scope hscope => (hall.scopes id slot scope hscope).extends (Extends.of_get rfl fun _ => rfl),
    hall.types.enter _ _, hall.programs⟩

theorem indexed_initial : initial.Indexed := by
  unfold initial
  refine (List.foldlRecOn (motive := fun t : Table => t.Indexed ∧ rootId < t.size) builtinTypes _ ⟨?_, ?_⟩ ?_).1
  · refine ⟨?_, Domain.keyed_empty, Domain.keyed_empty⟩
    intro id slot scope hscope
    have hempty : scope = {} := by
      match id with
      | 0 => cases slot <;> cases hscope <;> rfl
      | 1 => cases hscope
      | id + 2 => cases hscope
    rw [hempty]
    exact Scope.indexed_empty _ id
  · decide
  · intro t ht entry _
    refine ⟨ht.1.addBuiltin ht.2 entry.1 entry.2, ?_⟩
    unfold addBuiltin
    rw [size_registerType, size_enter, size_alloc]
    exact Nat.lt_succ_of_lt ht.2

theorem contents_initial : ∀ id, ∀ x ∈ (initial.get id).contents, id = rootId ∧ 2 ≤ x ∧ x < 10 :=
  forall_initial (P := fun id s => ∀ x ∈ s.contents, id = rootId ∧ 2 ≤ x ∧ x < 10) (by decide) fun _ _ _ hx => by cases hx

theorem count_contents_initial : ∀ x < 10, (initial.get rootId).contents.count x = if 2 ≤ x then 1 else 0 := by decide

theorem listed_initial {x : SymbolId} (hx : x < 10) (c : SymbolId) :
    (initial.ledger x).listed c = if c = rootId ∧ 2 ≤ x then 1 else 0 := by
  have hlisted : (initial.ledger x).listed c = (initial.get c).contents.count x := rfl
  rw [hlisted]
  by_cases hc : c = rootId
  · rw [hc, count_contents_initial x hx]
    simp
  · rw [if_neg fun h => hc h.1, count_eq_zero]
    exact fun hmem => hc (contents_initial c x hmem).1

/-- The built-in types are found by name as the root lists them. -/
theorem lookupType_initial (name : String) :
    initial.lookupType name = [2, 3, 4, 5, 6, 7, 8, 9].filter fun id => initial.name id = name := by
  have hscope : (initial.get rootId).scope? .types = some ⟨initial.types, [2, 3, 4, 5, 6, 7, 8, 9]⟩ := by
    decide +kernel
  exact (indexed_initial.scopes rootId .types _ hscope).lookup name

theorem slot?_initial : ∀ id, (initial.get id).slot? = if id = bottomId then some 0 else none :=
  forall_initial (P := fun id s => s.slot? = if id = bottomId then some 0 else none) (by decide) fun id hid => by
    have hne : id ≠ bottomId := by
      rintro rfl
      exact absurd hid (by decide)
    rw [if_neg hne]
    rfl

theorem slotsAgree_initial : initial.SlotsAgree where
  inOrder := by
    have hslots : initial.slots = (({} : SlotTable SymbolId).insert bottomId).2 := by decide
    rw [hslots]
    exact SlotTable.inOrder_empty.insert bottomId
  slot_iff index id := by
    have hslots : initial.slots = ⟨[some bottomId], ⟨1, []⟩⟩ := by decide
    rw [hslots, slot?_initial, SlotTable.get?_eq_some]
    cases index with
    | zero => simp [eq_comm]
    | succ index => simp

theorem tidy_initial : initial.Tidy where
  ordered := sound_initial.ordered
  beyond id hid := by
    rw [size_initial] at hid
    have hget : initial.get id = default := get_of_size_le (by rw [size_initial]; exact hid)
    have hlisted : ∀ c, (initial.get c).contents.count id = 0 := by
      intro c
      rw [count_eq_zero]
      exact fun hmem => absurd (contents_initial c id hmem).2.2 hid.not_gt
    have htypes : ∀ name, (initial.lookupType name).count id = 0 := by
      intro name
      rw [lookupType_initial, count_eq_zero]
      intro hmem
      have hlt : ∀ x ∈ [2, 3, 4, 5, 6, 7, 8, 9], x < 10 := by decide
      exact absurd (hlt id (mem_filter.mp hmem).1) hid.not_gt
    simp only [ledger, hlisted, htypes, hget]
    rfl
  slots := slotsAgree_initial
  groups := forall_initial (P := fun _ s => s.fields?.isSome = true → s.kind.isItem = true) (by decide) fun _ _ h => by cases h

theorem home_bottom_initial : initial.Home bottomId none := by
  intro type htype hwithin
  have hle : type ≤ bottomId := hwithin.le sound_initial.ordered
  have hnot : ∀ id ≤ bottomId, (initial.get id).kind ≠ .typeDefinition := by decide
  exact hnot type hle htype

theorem standing_initial {id : SymbolId} (hid : id < 10) : initial.Standing id := by
  have hpresent : ∀ id < 10, (initial.get id).isRemoved = false := by decide
  have hremoved : (initial.ledger id).removed = false := hpresent id hid
  constructor
  case place =>
    by_cases htype : 2 ≤ id
    · refine .inr ⟨rootId, ⟨fun c => ?_, Nat.lt_of_lt_of_le (by decide) htype, .inl ?_⟩, .inl rfl⟩
      · rw [listed_initial hid]
        simp [htype]
      · have howner : ∀ id < 10, 2 ≤ id → (initial.get id).owner = some rootId := by decide
        exact howner id hid htype
    · left
      intro c
      rw [listed_initial hid, if_neg fun h => htype h.2]
  case closed =>
    intro container hentered hcont
    have hroot : container = rootId := by
      have hlisted := hentered.listed container
      rw [listed_initial hid, if_pos rfl] at hlisted
      by_contra hne
      simp [hne] at hlisted
    rw [hroot] at hcont
    exact absurd hcont (by decide)
  case complete => exact fun _ _ owner hown => .inl (owner_initial hown).1
  case aside => exact fun hsection => absurd hsection (sectionless_initial id)
  case inner =>
    intro owner hown hitem
    rw [(owner_initial hown).1] at hitem
    exact absurd hitem (by decide)
  case below => exact fun _ _ _ => hremoved
  case slot =>
    have hslot : (initial.ledger id).slot = _ := slot?_initial id
    rw [hslot, hremoved]
    by_cases hbottom : id = bottomId
    · rw [if_pos hbottom, hbottom]
      simpa [home_bottom_initial] using (by decide : (initial.get bottomId).kind.isItem = true)
    · rw [if_neg hbottom]
      have hkinds : ∀ id < 10, id ≠ bottomId → (initial.get id).kind.isItem = true →
          (initial.get id).kind = .typeDefinition := by decide
      refine iff_of_false (by simp) ?_
      rintro ⟨⟨hitem, hhome⟩, _⟩
      exact (Home.self (hkinds id hid hbottom hitem)).not_none hhome
  case types =>
    intro name
    have hcount : (initial.ledger id).types name = (initial.lookupType name).count id := rfl
    have hkinds : ∀ id < 10, (initial.get id).kind = .typeDefinition ↔ id ∈ [2, 3, 4, 5, 6, 7, 8, 9] := by decide
    have hnodup : [2, 3, 4, 5, 6, 7, 8, 9].Nodup := by decide
    rw [hcount, lookupType_initial, hremoved]
    by_cases hname : name = initial.name id
    · rw [count_filter (by simp [hname])]
      by_cases hmem : id ∈ [2, 3, 4, 5, 6, 7, 8, 9]
      · rw [if_pos ⟨⟨(hkinds id hid).mpr hmem, hname⟩, rfl⟩]
        exact count_eq_one_of_mem hnodup hmem
      · rw [if_neg fun h => hmem ((hkinds id hid).mp h.1.1), count_eq_zero.mpr hmem]
    · rw [if_neg fun h => hname h.1.2, count_eq_zero]
      intro hmem
      have hfound := (mem_filter.mp hmem).2
      simp only [decide_eq_true_eq] at hfound
      exact hname hfound.symm
  case programs => exact fun name => Nat.zero_le _

theorem regular_initial : initial.Regular where
  tidy := tidy_initial
  standing id hid := standing_initial (size_initial ▸ hid)
  indexed := indexed_initial
  root := by decide
  bottom := slot?_initial bottomId

end Table

namespace Session

variable {s : Session} {P : Table → Prop}

/-- What holds of a session between two actions: its table is sound and regular, and the units that it remembers consist
of programs that belong to the root. -/
structure Regular (s : Session) : Prop where
  sound : s.table.Sound s.table.size
  table : s.table.Regular
  units : ∀ entry ∈ s.units, ∀ program ∈ entry.2,
    (s.table.get program).kind = .program ∧ s.table.OwnedBy program Table.rootId

theorem regular_start (options : Options) : (start options).Regular where
  sound := Table.sound_initial
  table := Table.regular_initial
  units := nofun

section

variable (h : s.Regular)
include h

theorem advances_compile (file : FileId) (events : List Event) :
    Advances { context := { s.context with file } }
      ((Build.start { s.context with file }).steps events).close.declarations :=
  (orderly_start (c := { s.context with file }) h.sound h.table).steps (Build.unit_steps { s.context with file } events)

theorem Regular.compile (file : FileId) (events : List Event) : (s.compile file events).2.Regular := by
  obtain ⟨⟨base, horderly⟩, hcontinues, _⟩ := advances_compile h file events
  refine ⟨sound_compile h.sound file events, horderly.regular, ?_⟩
  intro entry hentry program hprog
  rcases mem_cons.mp hentry with heq | hold
  · subst heq
    exact horderly.listed program hprog
  · obtain ⟨hkind, hown⟩ := h.units entry (mem_filter.mp hold).1 program hprog
    exact ⟨(hcontinues.kind hown.lt_size).trans hkind, (hcontinues.ownedBy_iff hown.lt_size).mpr hown⟩

/-- What a session remembers of a file are programs. -/
theorem Regular.programs_of_unit (file : FileId) :
    ∀ program ∈ (List.lookup file s.units).getD [], (s.table.get program).kind = .program := by
  intro program hprog
  cases hlookup : List.lookup file s.units with
  | none => simp [hlookup] at hprog
  | some programs =>
    obtain ⟨before, after, heq, _⟩ := lookup_eq_some_iff.mp hlookup
    refine (h.units (file, programs) ?_ program (by simpa [hlookup] using hprog)).1
    rw [heq]
    exact mem_append_right before mem_cons_self

/-- Detaching a file removes the programs that the session remembers of it. -/
theorem Regular.purged_detach (file : FileId) :
    s.table.Purged s.table.size ((List.lookup file s.units).getD []) (s.detach file).table :=
  h.table.purged_foldl h.sound (h.programs_of_unit file)

theorem Regular.detach (file : FileId) : (s.detach file).Regular := by
  have hpurged := h.purged_detach file
  refine ⟨hpurged.sound.restart, hpurged.regular, ?_⟩
  intro entry hentry program hprog
  obtain ⟨hkind, hown⟩ := h.units entry (mem_filter.mp hentry).1 program hprog
  exact ⟨(hpurged.kind hown.lt_size).trans hkind, (hpurged.ownedBy_iff hown.lt_size).mpr hown⟩

theorem Regular.serve (request : Request) : (s.serve request).2.Regular := by
  unfold Session.serve
  split
  · exact (h.detach request.file).compile request.file request.events
  · exact h.compile request.file request.events

theorem Regular.perform (action : Action) : (s.perform action).Regular := by
  cases action with
  | build request => exact h.serve request
  | detach file => exact h.detach file
  | remove program =>
    unfold Session.perform
    simp only
    split
    · rename_i hkind
      have hpurged := h.table.purged_removeProgram h.sound hkind
      refine ⟨hpurged.sound.restart, hpurged.regular, ?_⟩
      intro entry hentry other hother
      obtain ⟨hkind', hown⟩ := h.units entry hentry other hother
      exact ⟨(hpurged.kind hown.lt_size).trans hkind', (hpurged.ownedBy_iff hown.lt_size).mpr hown⟩
    · exact h

end

/-- Whatever is asked of a session, it stays regular. -/
theorem regular_reached (options : Options) (actions : List Action) : (reached options actions).Regular :=
  List.foldlRecOn (motive := Regular) actions perform (regular_start options) fun _ h action _ => h.perform action

theorem Regular.keeps_compile (h : s.Regular)
    (hstep : ∀ {base : Nat} {d d' : Declarations}, d.Step d' → d.Ready base → P d.table → P d'.table) (hs : P s.table)
    (file : FileId) (events : List Event) : P (s.compile file events).2.table := by
  have hready := ready_closed (d := { context := { s.context with file } }) h.sound rfl rfl rfl rfl rfl rfl
  refine ((Build.unit_steps { s.context with file } events).keep (P := fun d => (∃ base, d.Ready base) ∧ P d.table) ?_
    ⟨⟨_, hready⟩, hs⟩).2
  rintro d d' hstep' ⟨⟨base, hready⟩, hd⟩
  exact ⟨hstep'.ready ⟨base, hready⟩, hstep hstep' hready hd⟩

/-- Every session has what the first table has, if building units and removing programs keep it. -/
theorem table_reached (hstart : P .initial)
    (hcompile : ∀ (s : Session) (file : FileId) (events : List Event), s.Regular → P s.table →
      P (s.compile file events).2.table)
    (hremove : ∀ (t : Table) (program : SymbolId) {base : Nat}, t.Regular → t.Sound base →
      (t.get program).kind = .program → P t → P (t.removeProgram program).2)
    (options : Options) (actions : List Action) : P (reached options actions).table := by
  have hdetach : ∀ (s : Session) (file : FileId), s.Regular → P s.table → P (s.detach file).table := fun s file h hs =>
    h.table.foldl_removeProgram h.sound (h.programs_of_unit file) (fun t program => hremove t program) hs
  have hboth : (reached options actions).Regular ∧ P (reached options actions).table := by
    refine List.foldlRecOn (motive := fun s : Session => s.Regular ∧ P s.table) actions _
      ⟨regular_start options, hstart⟩ fun s hs action _ => ⟨hs.1.perform action, ?_⟩
    cases action with
    | build request =>
      unfold Session.perform
      simp only
      unfold Session.serve
      split
      · exact hcompile _ _ _ (hs.1.detach _) (hdetach s _ hs.1 hs.2)
      · exact hcompile s _ _ hs.1 hs.2
    | detach file => exact hdetach s file hs.1 hs.2
    | remove program =>
      unfold Session.perform
      simp only
      split
      · rename_i hkind
        exact hremove s.table program hs.1.table hs.1.sound hkind hs.2
      · exact hs.2
  exact hboth.2

end Session

end CobolSymbols
