import ObjectLang.Proofs.StructuralChecks

/-! Where following parent names leads. From a name the walk passes the class declared under it and goes
on from the name of the parent, so two walks from one name agree as far as both go. It ends at the empty
name, at a name that nobody declares, or at a class that it has passed; which of them it is decides what
listing the ancestors of a class comes to. The equations of inheritance are the first step of the walk
and the rest of it. -/

namespace ObjectLang

namespace ClassTable

variable {table : ClassTable} {name stop : String} {infos : List ClassInfo}

/-- Following parent names from a name leads past declared classes to another name. -/
inductive Leads (table : ClassTable) : String → List ClassInfo → String → Prop where
  | stay (name : String) : table.Leads name [] name
  | up {name stop : String} {info : ClassInfo} {above : List ClassInfo} (hname : name ≠ "")
      (hinfo : table.declared? name = some info) (habove : table.Leads info.parent above stop) :
      table.Leads name (info :: above) stop

/-- No parent name can be followed from a name: it stands for no class. -/
def DeadEnd (table : ClassTable) (stop : String) : Prop :=
  stop = "" ∨ table.declared? stop = none

/-- What a walk that passed some classes and stands at a name comes to, if it cannot or need not go on. -/
inductive Ends (table : ClassTable) (passed : List ClassInfo) :
    String → Except ChainError (List ClassInfo) → Prop where
  | top : table.Ends passed "" (.ok passed)
  | unknown {stop : String} (hstop : stop ≠ "") (hnone : table.declared? stop = none) :
      table.Ends passed stop (.error (.unknown stop))
  | cycle {stop : String} (hstop : stop ∈ passed.map (·.name)) :
      table.Ends passed stop (.error (.cycle stop))

namespace Leads

theorem concat (h : table.Leads name infos stop) (hstop : stop ≠ "") {info : ClassInfo}
    (hinfo : table.declared? stop = some info) :
    table.Leads name (infos ++ [info]) info.parent := by
  induction h with
  | stay name => exact .up hstop hinfo (.stay _)
  | up hname hfirst _ ih => exact .up hname hfirst (ih hstop hinfo)

/-- A walk only passes classes of the table that have a name. -/
theorem passes (h : table.Leads name infos stop) :
    ∀ info ∈ infos, info.name ≠ "" ∧ table.declared? info.name = some info := by
  induction h with
  | stay name => exact List.forall_mem_nil _
  | up hname hinfo _ ih =>
      refine List.forall_mem_cons.mpr ⟨?_, ih⟩
      rw [declared?_name hinfo]
      exact ⟨hname, hinfo⟩

theorem not_deadEnd_of_mem (h : table.Leads name infos stop) {passed : String}
    (hmem : passed ∈ infos.map (·.name)) : ¬ table.DeadEnd passed := by
  obtain ⟨info, hinfo, rfl⟩ := List.mem_map.mp hmem
  obtain ⟨hne, hdeclared⟩ := h.passes info hinfo
  rintro (hempty | hnone)
  · exact hne hempty
  · rw [hdeclared] at hnone
    cases hnone

/-- From a class that it passed a walk goes on to its end. -/
theorem from_mem (h : table.Leads name infos stop) {info : ClassInfo} (hmem : info ∈ infos) :
    ∃ above, table.Leads info.name (info :: above) stop ∧ above.length < infos.length := by
  induction h with
  | stay name => cases hmem
  | @up name stop first above hname hfirst habove ih =>
      rcases List.mem_cons.mp hmem with rfl | hmem
      · rw [declared?_name hfirst]
        exact ⟨above, .up hname hfirst habove, Nat.lt_succ_self _⟩
      · obtain ⟨rest, hrest, hlt⟩ := ih hmem
        exact ⟨rest, hrest, Nat.lt_succ_of_lt hlt⟩

/-- A walk to a dead end is as long as any walk from its start can be. -/
theorem prefix_of_deadEnd {infos' : List ClassInfo} {stop' : String}
    (h : table.Leads name infos stop) (h' : table.Leads name infos' stop')
    (hend : table.DeadEnd stop') : ∃ rest, infos' = infos ++ rest ∧ table.Leads stop rest stop' := by
  induction h generalizing infos' with
  | stay name => exact ⟨infos', rfl, h'⟩
  | up hname hinfo _ ih =>
      cases h' with
      | stay =>
          rcases hend with hempty | hnone
          · exact absurd hempty hname
          · rw [hinfo] at hnone
            cases hnone
      | up _ hinfo' habove' =>
          rw [hinfo] at hinfo'
          cases hinfo'
          obtain ⟨rest, rfl, hrest⟩ := ih habove'
          exact ⟨rest, rfl, hrest⟩

/-- A walk to a dead end passes no class twice: from either passing it would have as far to go. -/
theorem nodup (h : table.Leads name infos stop) (hend : table.DeadEnd stop) :
    (infos.map (·.name)).Nodup := by
  induction h with
  | stay name => exact List.nodup_nil
  | @up name stop info above hname hinfo habove ih =>
      rw [List.map_cons, List.nodup_cons]
      refine ⟨fun hmem => ?_, ih hend⟩
      obtain ⟨again, hagain, heq⟩ := List.mem_map.mp hmem
      obtain ⟨rest, hrest, hlt⟩ := habove.from_mem hagain
      rw [heq, declared?_name hinfo] at hrest
      obtain ⟨more, hmore, -⟩ := (Leads.up hname hinfo habove).prefix_of_deadEnd hrest hend
      have hlength := congrArg List.length hmore
      simp only [List.length_cons, List.length_append] at hlength
      omega

end Leads

theorem length_le_of_nodup (h : table.Leads name infos stop)
    (hdistinct : (infos.map (·.name)).Nodup) : infos.length ≤ table.classes.length := by
  have hsubset : infos.map (·.name) ⊆ table.classes.map (·.name) := by
    intro passed hpassed
    obtain ⟨info, hinfo, rfl⟩ := List.mem_map.mp hpassed
    exact List.mem_map_of_mem (declared?_mem (h.passes info hinfo).2)
  simpa using (List.Nodup.subperm hdistinct hsubset).length_le

/-- A walk that has passed no class twice goes on until it ends, since there are only so many
classes. -/
theorem Leads.exists_end {stop : String} {infos : List ClassInfo} (h : table.Leads name infos stop)
    (hdistinct : (infos.map (·.name)).Nodup) :
    ∃ infos stop outcome, table.Leads name infos stop ∧ (infos.map (·.name)).Nodup ∧
      table.Ends infos stop outcome := by
  by_cases hempty : stop = ""
  · subst hempty
    exact ⟨infos, "", _, h, hdistinct, .top⟩
  · by_cases hpassed : stop ∈ infos.map (·.name)
    · exact ⟨infos, stop, _, h, hdistinct, .cycle hpassed⟩
    · cases hinfo : table.declared? stop with
      | none => exact ⟨infos, stop, _, h, hdistinct, .unknown hempty hinfo⟩
      | some info =>
          have hnext := h.concat hempty hinfo
          have hdistinct' : ((infos ++ [info]).map (·.name)).Nodup := by
            rw [List.map_append, List.nodup_append]
            refine ⟨hdistinct, List.nodup_singleton _, ?_⟩
            rintro passed hmem _ (_ | ⟨_, ⟨⟩⟩) rfl
            exact hpassed (declared?_name hinfo ▸ hmem)
          have hbound := length_le_of_nodup hnext hdistinct'
          exact hnext.exists_end hdistinct'
termination_by table.classes.length - infos.length
decreasing_by
  simp only [List.length_append, List.length_singleton] at hbound ⊢
  omega

/-- Listing ancestors along a walk: what the walk passed, and then what comes from where it leads. -/
theorem chainFrom_of_leads (h : table.Leads name infos stop) {passed : List String}
    (hdistinct : (infos.map (·.name)).Nodup) (hnew : ∀ info ∈ infos, info.name ∉ passed)
    (steps : Nat) :
    table.chainFrom (infos.length + steps) passed name =
      (table.chainFrom steps ((infos.map (·.name)).reverse ++ passed) stop).map (infos ++ ·) := by
  induction h generalizing passed with
  | stay name =>
      simp only [List.length_nil, Nat.zero_add, List.map_nil, List.reverse_nil, List.nil_append]
      cases table.chainFrom steps passed name <;> rfl
  | @up name stop info above hname hinfo _ ih =>
      rw [List.map_cons, List.nodup_cons] at hdistinct
      obtain ⟨hfirst, hrest⟩ := hdistinct
      obtain ⟨hnewFirst, hnewRest⟩ := List.forall_mem_cons.mp hnew
      have hinfoName := declared?_name hinfo
      rw [hinfoName] at hnewFirst hfirst
      have hnew' : ∀ next ∈ above, next.name ∉ name :: passed := by
        intro next hnext hmem
        rcases List.mem_cons.mp hmem with heq | hmem
        · exact hfirst (heq ▸ List.mem_map_of_mem hnext)
        · exact hnewRest next hnext hmem
      have habove := ih hrest hnew'
      rw [List.length_cons, Nat.add_right_comm, chainFrom, if_neg hname,
        if_neg (by simpa using hnewFirst), hinfo]
      simp only [habove, List.map_cons, List.reverse_cons, List.append_assoc, List.singleton_append,
        hinfoName]
      cases table.chainFrom steps ((above.map (·.name)).reverse ++ name :: passed) stop <;> rfl

/-- Listing the ancestors of a class comes to what the walk from it comes to. -/
theorem chain_of_ends (h : table.Leads name infos stop) (hdistinct : (infos.map (·.name)).Nodup)
    {outcome : Except ChainError (List ClassInfo)} (hend : table.Ends infos stop outcome) :
    table.chain name = outcome := by
  have hbound := length_le_of_nodup h hdistinct
  obtain ⟨steps, hsteps⟩ : ∃ steps, table.classes.length + 1 = infos.length + (steps + 1) :=
    ⟨table.classes.length - infos.length, by omega⟩
  rw [chain, hsteps, chainFrom_of_leads h hdistinct (fun _ _ => List.not_mem_nil)]
  cases hend with
  | top =>
      rw [chainFrom, if_pos rfl]
      exact congrArg Except.ok (List.append_nil infos)
  | unknown hne hnone =>
      have hnew : stop ∉ infos.map (·.name) := fun hmem =>
        h.not_deadEnd_of_mem hmem (.inr hnone)
      rw [chainFrom, if_neg hne, if_neg (by simpa using hnew), hnone]
      rfl
  | cycle hmem =>
      have hne : stop ≠ "" := fun hempty => h.not_deadEnd_of_mem hmem (.inl hempty)
      rw [chainFrom, if_neg hne, if_pos (by simpa using hmem)]
      rfl

theorem chain_eq_iff {outcome : Except ChainError (List ClassInfo)} :
    table.chain name = outcome ↔ ∃ infos stop, table.Leads name infos stop ∧
      (infos.map (·.name)).Nodup ∧ table.Ends infos stop outcome := by
  constructor
  · rintro rfl
    have hstay : table.Leads name [] name := .stay name
    obtain ⟨infos, stop, outcome, h, hdistinct, hend⟩ := hstay.exists_end List.nodup_nil
    rw [chain_of_ends h hdistinct hend]
    exact ⟨infos, stop, h, hdistinct, hend⟩
  · rintro ⟨infos, stop, h, hdistinct, hend⟩
    exact chain_of_ends h hdistinct hend

theorem chain_eq_ok_iff : table.chain name = .ok infos ↔ table.Leads name infos "" := by
  rw [chain_eq_iff]
  constructor
  · rintro ⟨_, _, h, -, ⟨⟩⟩
    exact h
  · exact fun h => ⟨infos, "", h, h.nodup (.inl rfl), .top⟩

theorem chain_eq_unknown_iff : table.chain name = .error (.unknown stop) ↔
    (∃ passed, table.Leads name passed stop) ∧ stop ≠ "" ∧ table.declared? stop = none := by
  rw [chain_eq_iff]
  constructor
  · rintro ⟨passed, _, h, -, hend⟩
    cases hend with
    | unknown hstop hnone => exact ⟨⟨passed, h⟩, hstop, hnone⟩
  · rintro ⟨⟨passed, h⟩, hstop, hnone⟩
    exact ⟨passed, stop, h, h.nodup (.inr hnone), .unknown hstop hnone⟩

theorem chain_eq_cycle_iff : table.chain name = .error (.cycle stop) ↔
    ∃ passed, table.Leads name passed stop ∧ (passed.map (·.name)).Nodup ∧
      stop ∈ passed.map (·.name) := by
  rw [chain_eq_iff]
  constructor
  · rintro ⟨passed, _, h, hdistinct, hend⟩
    cases hend with
    | cycle hstop => exact ⟨passed, h, hdistinct, hstop⟩
  · rintro ⟨passed, h, hdistinct, hstop⟩
    exact ⟨passed, stop, h, hdistinct, .cycle hstop⟩

/-! ### The equations of inheritance -/

section Parent

variable {info : ClassInfo} (hname : name ≠ "") (hinfo : table.declared? name = some info)
  (hchain : table.chain name = .ok infos)
include hname hinfo hchain

/-- The ancestors of a class are the class and the ancestors of its parent. -/
theorem chain_parent : ∃ above, infos = info :: above ∧ table.chain info.parent = .ok above := by
  cases chain_eq_ok_iff.mp hchain with
  | stay => exact absurd rfl hname
  | up _ hinfo' habove =>
      rw [hinfo] at hinfo'
      cases hinfo'
      exact ⟨_, rfl, chain_eq_ok_iff.mpr habove⟩

theorem fieldHierarchy_parent : ∃ inherited, table.fieldHierarchy info.parent = .ok inherited ∧
    table.fieldHierarchy name = .ok (info.fields ++ inherited) := by
  obtain ⟨above, rfl, habove⟩ := chain_parent hname hinfo hchain
  exact ⟨_, fieldHierarchy_of_chain habove, fieldHierarchy_of_chain hchain⟩

theorem lookup?_parent (hparent : info.parent ≠ "") (method : String) :
    table.lookup? name method =
      (findMethod? info.methods method).or (table.lookup? info.parent method) := by
  obtain ⟨above, rfl, habove⟩ := chain_parent hname hinfo hchain
  rw [lookup?, lookup?, if_neg hname, if_neg hparent, hchain, habove]
  dsimp only
  rw [List.findSome?_cons]
  cases findMethod? info.methods method <;> rfl

end Parent

end ClassTable

/-- **Ancestor walk and lookup obey the inheritance equations.** In any table, following parent names
from a name decides what listing its ancestors comes to: the classes passed if that leads to the empty
name, none of them twice; otherwise an error that names the undeclared class it leads to, or the first
class it reaches twice. Where a class with a parent has ancestors they are itself and those of the
parent, its fields are its own before those of the parent, and a method is its own or else what the
parent finds. -/
theorem ancestors_follow_parents (table : ClassTable) (name : String) :
    (∀ infos, table.chain name = .ok infos ↔ table.Leads name infos "") ∧
    (∀ infos, table.chain name = .ok infos → (infos.map (·.name)).Nodup) ∧
    (∀ stop, table.chain name = .error (.unknown stop) ↔
      (∃ passed, table.Leads name passed stop) ∧ stop ≠ "" ∧ table.declared? stop = none) ∧
    (∀ stop, table.chain name = .error (.cycle stop) ↔
      ∃ passed, table.Leads name passed stop ∧ (passed.map (·.name)).Nodup ∧
        stop ∈ passed.map (·.name)) ∧
    ∀ info infos, name ≠ "" → table.declared? name = some info → info.parent ≠ "" →
      table.chain name = .ok infos →
      (∃ above, infos = info :: above ∧ table.chain info.parent = .ok above) ∧
      (∃ inherited, table.fieldHierarchy info.parent = .ok inherited ∧
        table.fieldHierarchy name = .ok (info.fields ++ inherited)) ∧
      ∀ method, table.lookup? name method =
        (findMethod? info.methods method).or (table.lookup? info.parent method) := by
  refine ⟨fun _ => ClassTable.chain_eq_ok_iff, fun infos hchain => ?_,
    fun _ => ClassTable.chain_eq_unknown_iff, fun _ => ClassTable.chain_eq_cycle_iff, ?_⟩
  · exact (ClassTable.chain_eq_ok_iff.mp hchain).nodup (.inl rfl)
  · intro info infos hname hinfo hparent hchain
    exact ⟨ClassTable.chain_parent hname hinfo hchain,
      ClassTable.fieldHierarchy_parent hname hinfo hchain,
      ClassTable.lookup?_parent hname hinfo hchain hparent⟩

/-- A line that leads back into itself, one that leads to an undeclared class, and one that ends. -/
theorem ancestors_of_plants :
    ((ClassTable.build (plantProgram "Tree")).1.chain "Oak" = .error (.cycle "Tree") ∧
      ∃ passed, (ClassTable.build (plantProgram "Tree")).1.Leads "Oak" passed "Tree" ∧
        (passed.map (·.name)).Nodup ∧ "Tree" ∈ passed.map (·.name)) ∧
    ((ClassTable.build (plantProgram "Life")).1.chain "Oak" = .error (.unknown "Life") ∧
      ∃ passed, (ClassTable.build (plantProgram "Life")).1.Leads "Oak" passed "Life") ∧
    ∃ oak infos, (ClassTable.build (plantProgram "")).1.declared? "Oak" = some oak ∧
      oak.parent = "Tree" ∧ (ClassTable.build (plantProgram "")).1.chain "Oak" = .ok infos ∧
      (ClassTable.build (plantProgram "")).1.Leads "Oak" infos "" ∧ (infos.map (·.name)).Nodup ∧
      (∃ above, infos = oak :: above ∧
        (ClassTable.build (plantProgram "")).1.chain "Tree" = .ok above) ∧
      (∃ inherited, (ClassTable.build (plantProgram "")).1.fieldHierarchy "Tree" = .ok inherited ∧
        (ClassTable.build (plantProgram "")).1.fieldHierarchy "Oak" =
          .ok (oak.fields ++ inherited)) ∧
      ∀ method, (ClassTable.build (plantProgram "")).1.lookup? "Oak" method =
        (findMethod? oak.methods method).or
          ((ClassTable.build (plantProgram "")).1.lookup? "Tree" method) := by
  obtain ⟨-, -, -, hcycle, -⟩ :=
    ancestors_follow_parents (ClassTable.build (plantProgram "Tree")).1 "Oak"
  obtain ⟨-, -, hunknown, -, -⟩ :=
    ancestors_follow_parents (ClassTable.build (plantProgram "Life")).1 "Oak"
  obtain ⟨hok, hnodup, -, -, hparent⟩ :=
    ancestors_follow_parents (ClassTable.build (plantProgram "")).1 "Oak"
  have hback : (ClassTable.build (plantProgram "Tree")).1.chain "Oak" = .error (.cycle "Tree") := rfl
  have hlost : (ClassTable.build (plantProgram "Life")).1.chain "Oak" = .error (.unknown "Life") :=
    rfl
  refine ⟨⟨hback, (hcycle _).mp hback⟩, ⟨hlost, ((hunknown _).mp hlost).1⟩, ?_⟩
  obtain ⟨oak, hoak, hoakParent⟩ : ∃ oak,
      (ClassTable.build (plantProgram "")).1.declared? "Oak" = some oak ∧ oak.parent = "Tree" :=
    ⟨_, rfl, rfl⟩
  obtain ⟨infos, hchain⟩ : ∃ infos, (ClassTable.build (plantProgram "")).1.chain "Oak" = .ok infos :=
    ⟨_, rfl⟩
  have hequations := hparent oak infos (by decide) hoak (by rw [hoakParent]; decide) hchain
  rw [hoakParent] at hequations
  exact ⟨oak, infos, hoak, hoakParent, hchain, (hok infos).mp hchain, hnodup infos hchain, hequations⟩

end ObjectLang
