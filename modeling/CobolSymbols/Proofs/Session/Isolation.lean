import CobolSymbols.Proofs.Renaming.Unit
import CobolSymbols.Proofs.Session.Regular

/-!
# Units do not depend on what was built before

Whatever a session has built and removed, its built-in symbols are as at the start, up to the programs that the root
lists. So a unit is built as in a session in which nothing has been built, under other numbers: the built-in symbols keep
theirs, and all others are shifted by a constant. Two sessions are compared through the one in which nothing was built.
-/

set_option autoImplicit false

namespace CobolSymbols

open Declarations Symbol

section Lasting

theorem Symbol.lasting_eq {s s' : Symbol} (h : s'.lasting = s.lasting) :
    s'.name = s.name ∧ s'.flags = s.flags ∧ s'.owner = s.owner ∧ s'.type = s.type ∧ s'.position = s.position ∧
      s'.kind = s.kind := by
  have hfields : ∀ s : Symbol, s.lasting.name = s.name ∧ s.lasting.flags = s.flags ∧ s.lasting.owner = s.owner ∧
      s.lasting.type = s.type ∧ s.lasting.position = s.position ∧ s.lasting.kind = s.kind := by
    intro s
    unfold Symbol.lasting Symbol.kind
    cases hbody : s.body <;> simp [hbody]
  obtain ⟨hname, hflags, howner, htype, hposition, hkind⟩ := hfields s
  obtain ⟨hname', hflags', howner', htype', hposition', hkind'⟩ := hfields s'
  rw [h] at hname' hflags' howner' htype' hposition' hkind'
  exact ⟨hname'.symm.trans hname, hflags'.symm.trans hflags, howner'.symm.trans howner, htype'.symm.trans htype,
    hposition'.symm.trans hposition, hkind'.symm.trans hkind⟩

theorem Symbol.body_of_lasting {s s' : Symbol} (h : s'.lasting = s.lasting) :
    s'.body = s.body ∨
      (∃ scopes scopes', s.body = .root scopes ∧ s'.body = .root scopes' ∧
        ∀ slot, slot ≠ .programs → scopes'.get slot = scopes.get slot) ∨
      ∃ scopes, s.body = .namespaceBody scopes := by
  obtain ⟨name, flags, owner, type, position, body⟩ := s
  obtain ⟨name', flags', owner', type', position', body'⟩ := s'
  cases body with
  | root scopes =>
    cases body' with
    | root scopes' =>
      refine .inr (.inl ⟨scopes, scopes', rfl, rfl, fun slot hslot => ?_⟩)
      have hscopes := SymbolBody.root.inj (congrArg Symbol.body h)
      have hget := congrArg (fun kept : Scopes => kept.get slot) hscopes
      cases slot with
      | programs => exact absurd rfl hslot
      | _ => exact hget
    | _ => simp [Symbol.lasting] at h
  | namespaceBody scopes => exact .inr (.inr ⟨scopes, rfl⟩)
  | _ =>
    cases body' with
    | root scopes' | namespaceBody scopes' => simp [Symbol.lasting] at h
    | _ => exact .inl (congrArg Symbol.body h)

/-- What stands for a symbol stands for it whatever programs the root lists. -/
theorem Symbol.Alike.of_lasting {ρ : SymbolId → SymbolId} {s s' s'' : Symbol} (h : s.Alike ρ s')
    (hlasting : s''.lasting = s'.lasting) : s.Alike ρ s'' := by
  obtain ⟨hname, hflags, howner, htype, hposition, _⟩ := lasting_eq hlasting
  refine ⟨hname.trans h.name, hflags.trans h.flags, howner.trans h.owner, htype.trans h.type,
    hposition.trans h.position, ?_⟩
  have hbody := h.body
  rcases body_of_lasting hlasting with hsame | ⟨scopes, scopes'', hroot, hroot'', htypes⟩ | ⟨scopes, hspace⟩
  · rw [hsame]
    exact hbody
  · rw [hroot] at hbody
    rw [hroot'']
    generalize s.body = body at hbody
    cases hbody with
    | root hold => exact .root ((htypes .types (by decide)).trans hold)
  · rw [hspace] at hbody
    generalize s.body = body at hbody
    cases hbody

end Lasting

namespace Table

variable {t t' : Table} {base : Nat} {program : SymbolId}

/-- The built-in symbols are as at the start. -/
def Furnished (t : Table) : Prop := initial.size ≤ t.size ∧ Spares initial.size initial t

theorem Furnished.kind (h : t.Furnished) {id : SymbolId} (hid : id < initial.size) :
    (t.get id).kind = (initial.get id).kind :=
  (lasting_eq (h.2 id hid)).2.2.2.2.2

/-- No built-in symbol is a program. -/
theorem Furnished.program_le (h : t.Furnished) (hkind : (t.get program).kind = .program) : initial.size ≤ program := by
  apply Nat.le_of_not_lt
  intro hlt
  have hnone : ∀ id < 10, (initial.get id).kind ≠ .program := by decide
  rw [h.kind hlt] at hkind
  exact hnone program (size_initial ▸ hlt) hkind

/-- Scopes own programs, and of the built-in symbols only the root is one. -/
theorem Furnished.purged {t' : Table} {programs : List SymbolId} (h : t.Furnished) (hsound : t.Sound base)
    (hkinds : ∀ program ∈ programs, (t.get program).kind = .program) (hpurged : Purged base programs t t') :
    t'.Furnished := by
  refine ⟨hpurged.size_eq ▸ h.1, h.2.trans (hpurged.spares initial.size fun program hprog => ?_)⟩
  have hkind := hkinds program hprog
  refine ⟨h.program_le hkind, fun owner howner => ?_⟩
  by_cases hlt : owner < initial.size
  · right
    have hscope : (t.get owner).kind.isScope = true := hsound.scope_owner program owner howner (by rw [hkind]; rfl)
    have honly : ∀ id < 10, (initial.get id).kind.isScope = true → id = rootId := by decide
    rw [h.kind hlt] at hscope
    exact honly owner (size_initial ▸ hlt) hscope
  · exact .inl (not_lt.mp hlt)

theorem furnished_initial : initial.Furnished := ⟨le_rfl, Spares.refl _ _⟩

end Table

section Shift

variable {id : SymbolId} {ρ : SymbolId → SymbolId} {t : Table} {size : Nat}

/-- The built-in symbols keep their numbers, and all others are shifted by a constant. -/
def shift (gap : Nat) (id : SymbolId) : SymbolId := if id < Table.initial.size then id else id + gap

theorem shift_builtin {gap : Nat} (h : id < Table.initial.size) : shift gap id = id := if_pos h

theorem shift_new (gap k : Nat) : shift gap (Table.initial.size + k) = Table.initial.size + gap + k := by
  unfold shift
  rw [if_neg (Nat.le_add_right _ _).not_gt]
  exact Nat.add_right_comm _ _ _

theorem shift_injective (gap : Nat) : Function.Injective (shift gap) := by
  intro first second h
  unfold shift at h
  by_cases hfirst : first < Table.initial.size
  · by_cases hsecond : second < Table.initial.size
    · rwa [if_pos hfirst, if_pos hsecond] at h
    · rw [if_pos hfirst, if_neg hsecond] at h
      rw [h] at hfirst
      exact absurd ((Nat.le_add_right _ _).trans_lt hfirst) hsecond
  · by_cases hsecond : second < Table.initial.size
    · rw [if_neg hfirst, if_pos hsecond] at h
      rw [← h] at hsecond
      exact absurd ((Nat.le_add_right _ _).trans_lt hsecond) hfirst
    · rw [if_neg hfirst, if_neg hsecond] at h
      exact Nat.add_right_cancel h

theorem Scope.map_of_fixed {s : Scope SymbolId} (horder : ∀ id ∈ s.order, ρ id = id)
    (hentries : ∀ entry ∈ s.domain.entries, ∀ id ∈ entry.2, ρ id = id) : s.map ρ = s := by
  obtain ⟨⟨entries⟩, order⟩ := s
  have hbuckets : entries.map (fun entry => (entry.1, entry.2.map ρ)) = entries := by
    refine (List.map_congr_left fun entry hentry => ?_).trans (List.map_id entries)
    exact Prod.ext rfl ((List.map_congr_left (hentries entry hentry)).trans (List.map_id entry.2))
  have hlisted : order.map ρ = order := (List.map_congr_left horder).trans (List.map_id order)
  simp only [Scope.map, Domain.map, hbuckets, hlisted]

theorem Table.alike_builtin (hρ : ∀ id < initial.size, ρ id = id)
    (hid : id < initial.size) : (initial.get id).Alike ρ (initial.get id) := by
  rw [size_initial] at hid hρ
  have howner : ∀ id < 10, (initial.get id).owner = if id = 0 then none else some rootId := by decide
  have htypes : ∀ id < 10, ((initial.get id).type.all fun type =>
      match type with
      | .usage _ => true
      | _ => false) = true := by decide
  have hkinds : ∀ id < 10, (initial.get id).kind = .root ∨ (initial.get id).kind = .plainItem ∨
      (initial.get id).kind = .typeDefinition := by decide
  refine ⟨rfl, rfl, ?_, ?_, rfl, ?_⟩
  · rw [howner id hid]
    split
    · rfl
    · exact congrArg some (hρ rootId (by decide)).symm
  · have hplain := htypes id hid
    cases htype : (initial.get id).type with
    | none => rfl
    | some type =>
      rw [htype] at hplain
      cases type with
      | usage format => rfl
      | _ => cases hplain
  · have hkind := hkinds id hid
    have htyped := (bare_initial id).1
    unfold Symbol.kind at hkind
    unfold Symbol.typedItems Symbol.item? at htyped
    cases hbody : (initial.get id).body with
    | root scopes =>
      have horder : ∀ id < 10, ∀ x ∈ (initial.get id).types.order, x < 10 := by decide
      have hentries : ∀ id < 10, ∀ entry ∈ (initial.get id).types.domain.entries, ∀ x ∈ entry.2, x < 10 := by decide
      have hscope : (initial.get id).types = scopes.types := by
        unfold Symbol.types
        rw [hbody]
      apply SymbolBody.Alike.root
      rw [← hscope]
      exact (Scope.map_of_fixed (fun x hx => hρ x (horder id hid x hx))
        fun entry hentry x hx => hρ x (hentries id hid entry hentry x hx)).symm
    | item data =>
      rw [hbody] at hkind htyped
      refine .item ⟨rfl, rfl, ?_, rfl⟩
      cases hitem : data.kind with
      | plain => rfl
      | typeDefinition restriction items =>
        rw [Option.map_some, hitem] at htyped
        rw [show items = [] from htyped]
        rfl
      | _ => simp [hitem] at hkind
    | _ => simp [hbody] at hkind

/-- A table with its built-in symbols as at the start is like the one of the start. -/
theorem Table.Furnished.alike (h : t.Furnished) : initial.Alike (shift (t.size - initial.size)) t where
  injective := shift_injective _
  root := shift_builtin (by rw [size_initial]; decide)
  size_le := h.1
  next k := by
    rw [shift_new, Nat.add_sub_cancel' h.1]
  lt id hid := by
    rw [shift_builtin hid]
    exact hid.trans_le h.1
  get id := by
    by_cases hid : id < initial.size
    · rw [shift_builtin hid]
      exact (alike_builtin (fun _ hbuiltin => shift_builtin hbuiltin) hid).of_lasting (h.2 id hid)
    · have hge := not_lt.mp hid
      obtain ⟨k, hk⟩ := Nat.exists_eq_add_of_le hge
      have hbeyond : t.size ≤ shift (t.size - initial.size) id := by
        rw [hk, shift_new, Nat.add_sub_cancel' h.1]
        exact Nat.le_add_right _ _
      rw [get_of_size_le hge, get_of_size_le hbeyond]
      -- there is nothing but the default symbol
      exact ⟨rfl, rfl, rfl, rfl, rfl, .heading⟩

/-- A change of numbers that lets new symbols go with each other takes one shift to the other. -/
theorem comp_shift {size' : Nat} (hsize : Table.initial.size ≤ size) (hsize' : Table.initial.size ≤ size')
    (hbuiltin : ∀ id, id < Table.initial.size → ρ id = id) (hnew : ∀ k, ρ (size + k) = size' + k) :
    ρ ∘ shift (size - Table.initial.size) = shift (size' - Table.initial.size) := by
  funext id
  by_cases hid : id < Table.initial.size
  · rw [Function.comp_apply, shift_builtin hid, shift_builtin hid, hbuiltin id hid]
  · obtain ⟨k, hk⟩ := Nat.exists_eq_add_of_le (not_lt.mp hid)
    rw [Function.comp_apply, hk, shift_new, shift_new, Nat.add_sub_cancel' hsize, Nat.add_sub_cancel' hsize', hnew]

/-- Tables that are alike by a shift have as many symbols beyond it. -/
theorem Table.Alike.gap {t' : Table} (h : t.Alike (shift (size - initial.size)) t')
    (hsize : initial.size ≤ size) (hle : initial.size ≤ t.size) : t'.size - size = t.size - initial.size := by
  obtain ⟨k, hk⟩ := Nat.exists_eq_add_of_le hle
  have hnext := h.next 0
  rw [hk, Nat.add_zero, shift_new, Nat.add_sub_cancel' hsize, Nat.add_zero] at hnext
  rw [hk, ← hnext, Nat.add_sub_cancel_left, Nat.add_sub_cancel_left]

end Shift

namespace Session

variable {s : Session} (options : Options) (actions : List Action)

theorem furnished_compile (h : s.Regular) (hbuiltin : s.table.Furnished) (file : FileId) (events : List Event) :
    (s.compile file events).2.table.Furnished := by
  have horderly := orderly_start (c := { s.context with file }) h.sound h.table
  obtain ⟨hspares, _⟩ := horderly.steps_spares (Build.unit_steps { s.context with file } events)
  have hcontinues := (advances_compile h file events).continues
  refine ⟨hbuiltin.1.trans hcontinues.size_le, hbuiltin.2.trans (hspares.mono ?_)⟩
  exact hbuiltin.1

theorem furnished_detach (h : s.Regular) (hbuiltin : s.table.Furnished) (file : FileId) :
    (s.detach file).table.Furnished :=
  hbuiltin.purged h.sound (h.programs_of_unit file) (h.purged_detach file)

theorem furnished_perform (h : s.Regular) (hbuiltin : s.table.Furnished) (action : Action) :
    (s.perform action).table.Furnished := by
  cases action with
  | build request =>
    unfold Session.perform Session.serve
    simp only
    split
    · exact furnished_compile (h.detach request.file) (furnished_detach h hbuiltin request.file) _ _
    · exact furnished_compile h hbuiltin _ _
  | detach file => exact furnished_detach h hbuiltin file
  | remove program =>
    unfold Session.perform
    simp only
    split
    · rename_i hkind
      exact hbuiltin.purged h.sound (by simpa using hkind) (h.table.purged_removeProgram h.sound hkind)
    · exact hbuiltin

theorem furnished_reached : (reached options actions).table.Furnished := by
  have hstart : (start options).table.Furnished := Table.furnished_initial
  refine (List.foldlRecOn (motive := fun s : Session => s.table.Furnished ∧ s.Regular) actions perform
    ⟨hstart, regular_start options⟩ ?_).1
  intro s hs action _
  exact ⟨furnished_perform hs.2 hs.1 action, hs.2.perform action⟩

/-- Building a unit leaves the options alone, and its diagnostics are not kept. -/
theorem context_compile (h : s.Regular) (file : FileId) (events : List Event) :
    (s.compile file events).2.context.options = s.context.options ∧
      (s.compile file events).2.context.diagnostics = [] := by
  have horderly := orderly_start (c := { s.context with file }) h.sound h.table
  exact ⟨horderly.steps_options (Build.unit_steps { s.context with file } events), rfl⟩

theorem context_reached :
    (reached options actions).context.options = options.checks ∧ (reached options actions).context.diagnostics =
    [] := by
  refine (List.foldlRecOn (motive := fun s : Session =>
    s.Regular ∧ s.context.options = options.checks ∧ s.context.diagnostics = []) actions perform
    ⟨regular_start options, rfl, rfl⟩ ?_).2
  rintro s ⟨hregular, hs⟩ action _
  refine ⟨hregular.perform action, ?_⟩
  cases action with
  | build request =>
    unfold Session.perform Session.serve
    simp only
    split
    · obtain ⟨hoptions, hnone⟩ := context_compile (hregular.detach request.file) request.file request.events
      exact ⟨hoptions.trans hs.1, hnone⟩
    · obtain ⟨hoptions, hnone⟩ := context_compile hregular request.file request.events
      exact ⟨hoptions.trans hs.1, hnone⟩
  | detach file => exact hs
  | remove program =>
    unfold Session.perform
    simp only
    split <;> exact hs

/-- The context of a session is like the one in which nothing was built. -/
theorem alike_reached : ({ options := options.checks } : Context).Alike
      (shift ((reached options actions).table.size - Table.initial.size))
      { (reached options actions).context with file := 0 } := by
  obtain ⟨hoptions, hdiags⟩ := context_reached options actions
  exact ⟨(furnished_reached options actions).alike, hdiags, hoptions, rfl⟩

/-- A unit is built in a session as where nothing was built, shifted. -/
theorem compile_shifted (file : FileId) (events : List Event) : let s := reached options actions
    let alone := ({ options := options.checks } : Context).compile file events
    let ρ := shift (s.table.size - Table.initial.size)
    (s.compile file events).1.tree = alone.1.tree.rename ρ ∧
      (s.compile file events).1.programs = alone.1.programs.map ρ ∧
      (s.compile file events).1.diagnostics = alone.1.diagnostics ∧
      alone.2.table.Alike ρ (s.compile file events).2.table :=
  (alike_reached options actions).compile Table.sound_initial file events

/-- A unit is built alike in any two sessions with the same options, whatever they have built, built again, detached and
removed before. The same is reported in the same order, and as many symbols are made. Under any change of numbers that
keeps those of the built-in symbols and lets the new symbols of the two sessions go with each other, the trees are the
same, and so are the new symbols in everything but the index of their slots. There are such changes, since no built-in
symbol is new. What they do to the symbols that were there before does not matter, so none of them is mentioned. -/
theorem units_do_not_depend_on_history (options : Options) (actions actions' : List Action) (file : FileId)
    (events : List Event) :
    let s := reached options actions
    let s' := reached options actions'
    let built := s.compile file events
    let built' := s'.compile file events
    built'.1.diagnostics = built.1.diagnostics ∧
    Table.initial.size ≤ s.table.size ∧
    built'.2.table.size - s'.table.size = built.2.table.size - s.table.size ∧
    ∀ ρ : SymbolId → SymbolId, (∀ id, id < Table.initial.size → ρ id = id) →
      (∀ k, ρ (s.table.size + k) = s'.table.size + k) →
      built'.1.tree = built.1.tree.rename ρ ∧
      built'.1.programs = built.1.programs.map ρ ∧
      ∀ id, s.table.size ≤ id → id < built.2.table.size → (built.2.table.get id).Alike ρ (built'.2.table.get (ρ id)) := by
  intro s s' built built'
  obtain ⟨htree, hprograms, hdiagnostics, halike⟩ := compile_shifted options actions file events
  obtain ⟨htree', hprograms', hdiagnostics', halike'⟩ := compile_shifted options actions' file events
  have hsize : Table.initial.size ≤ s.table.size := (furnished_reached options actions).1
  have hsize' : Table.initial.size ≤ s'.table.size := (furnished_reached options actions').1
  refine ⟨hdiagnostics'.trans hdiagnostics.symm, hsize, ?_, ?_⟩
  · have halone : Table.initial.size ≤ (({ options := options.checks } : Context).compile file events).2.table.size :=
      (furnished_compile (regular_start options) Table.furnished_initial file events).1
    rw [halike.gap hsize halone, halike'.gap hsize' halone]
  · intro ρ hbuiltin hnew
    have hcomp : ρ ∘ shift (s.table.size - Table.initial.size) = shift (s'.table.size - Table.initial.size) :=
      comp_shift hsize hsize' hbuiltin hnew
    refine ⟨?_, ?_, ?_⟩
    · rw [htree', htree, Tree.rename_rename, hcomp]
    · rw [hprograms', hprograms, List.map_map, hcomp]
    · intro id hid _
      obtain ⟨k, hk⟩ := Nat.exists_eq_add_of_le hid
      have hsource : shift (s.table.size - Table.initial.size) (Table.initial.size + k) = id := by
        rw [shift_new, Nat.add_sub_cancel' hsize, hk]
      have htarget : shift (s'.table.size - Table.initial.size) (Table.initial.size + k) = ρ id := by
        rw [shift_new, Nat.add_sub_cancel' hsize', hk, hnew]
      have hleft := halike.get (Table.initial.size + k)
      have hright := halike'.get (Table.initial.size + k)
      rw [hsource] at hleft
      rw [htarget, ← hcomp] at hright
      exact hleft.trans_comp hright

end Session

end CobolSymbols
