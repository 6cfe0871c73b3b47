import ObjectLang.Package.Bundle
import ObjectLang.Proofs.TableAgreement

/-! Linking. The libraries of a bundle only add declarations: without duplicates, what the entry
program declares is found in the linked program too, with the same ancestors, fields and methods. So
the table of the entry program is part of that of the linked one, and a run that finds all it asks for
in the first is the same run under the second. -/

namespace ObjectLang

namespace Bundle

variable (b : Bundle)

theorem mem_topRoutines_link {r : Routine} :
    r ∈ b.link.topRoutines ↔
      (∃ lib ∈ b.libraries, some r ∈ lib.program.routines) ∨ r ∈ b.entry.program.topRoutines := by
  rw [Program.mem_topRoutines, Program.mem_topRoutines]
  simp [link]

theorem mem_classDecls_link {decl : ClassDecl} (h : decl ∈ b.entry.program.classDecls) :
    decl ∈ b.link.classDecls := by
  rw [Program.mem_classDecls] at h ⊢
  exact List.mem_append_right _ h

variable {b} (hentry : (ClassTable.build b.entry.program).2 = [])
  (hlink : (ClassTable.build b.link).2 = [])
include hentry hlink

/-- The table of the entry program is part of the table of the linked program. -/
theorem partOf_link :
    (ClassTable.build b.entry.program).1.PartOf (ClassTable.build b.link).1 := by
  rw [ClassTable.build_of_diagnostics hentry, ClassTable.build_of_diagnostics hlink]
  apply (ClassTable.distinct_of_build hentry).partOf (ClassTable.distinct_of_build hlink)
  · intro r hr
    exact b.mem_topRoutines_link.mpr (.inr hr)
  · intro decl hdecl
    exact ⟨decl, b.mem_classDecls_link hdecl, rfl, rfl, rfl, fun _ => rfl⟩

variable (hnamed : ∀ lib ∈ b.libraries, ∀ r, some r ∈ lib.program.routines → r.name ≠ "")
include hnamed

/-- A routine of the linked program with the empty name is one of the entry program. -/
theorem unnamed_link (hnone : findMethod? (ClassTable.build b.entry.program).1.top "" = none) :
    findMethod? (ClassTable.build b.link).1.top "" = none := by
  rw [ClassTable.build_of_diagnostics hentry] at hnone
  rw [ClassTable.build_of_diagnostics hlink]
  cases hfind : findMethod? b.link.declarations.top "" with
  | none => rfl
  | some m =>
      obtain ⟨hmem, hname⟩ := (ClassTable.distinct_of_build hlink).findMethod?_top.mp hfind
      obtain ⟨r, hr, rfl⟩ := List.mem_map.mp hmem
      rcases b.mem_topRoutines_link.mp hr with ⟨lib, hlib, hr⟩ | hr
      · exact absurd hname (hnamed lib hlib r hr)
      · have hsome := (ClassTable.distinct_of_build hentry).findMethod?_top.mpr
          ⟨List.mem_map_of_mem hr, hname⟩
        rw [hnone] at hsome
        cases hsome

/-- What a run asks the table of the entry program, the table of the linked program answers alike. -/
theorem answers_link (keepLayout : Bool) :
    (Interpreter.boundTable keepLayout b.entry.program).Answers True
      (Interpreter.boundTable keepLayout b.link) := by
  have hpart := Interpreter.partOf_boundTable hentry hlink (partOf_link hentry hlink) keepLayout
  apply hpart.answers
  cases hfind : findMethod? (Interpreter.boundTable keepLayout b.entry.program).top "" with
  | some m => exact hpart.top "" m hfind
  | none =>
      cases keepLayout with
      | true => exact unnamed_link hentry hlink hnamed hfind
      | false =>
          rw [Interpreter.boundTable_false hentry] at hfind
          rw [Interpreter.boundTable_false hlink]
          simp only [ClassTable.mapRoutines,
            ClassTable.findMethod?_mapRoutines (Layout.placeIn_name _), Option.map_eq_none_iff] at hfind ⊢
          exact unnamed_link hentry hlink hnamed hfind

end Bundle

/-- **Linking is conservative.** Let the entry program of a bundle and the linked program have neither
diagnostics nor layout errors, and let no library declare a routine with the empty name. If the entry
program alone runs to an end that is not an unresolved dispatch, the linked program runs to the same
end in as many steps, and leaves the same heap, the same stack and the same lines printed and
traced. -/
theorem link_conservative {b : Bundle} (hentry : (ClassTable.build b.entry.program).2 = [])
    (hplaced : b.entry.program.layoutErrors (ClassTable.build b.entry.program).1 = [])
    (hlink : (ClassTable.build b.link).2 = [])
    (hlinkPlaced : b.link.layoutErrors (ClassTable.build b.link).1 = [])
    (hnamed : ∀ lib ∈ b.libraries, ∀ r, some r ∈ lib.program.routines → r.name ≠ "")
    (i : Interpreter) (steps : Nat) (keepLayout : Bool) :
    let alone := i.evaluate steps keepLayout (some b.entry.program)
    let linked := i.evaluate steps keepLayout (some b.link)
    alone.2 ≠ .outOfSteps → ¬ alone.2.FailedWith .unresolvedDispatch →
      linked.2 = alone.2 ∧ linked.1.store = alone.1.store := by
  intro alone linked hends hresolved
  have halone : alone = _ := Interpreter.evaluate_bound hentry (.inr hplaced) i steps
  have hlinked : linked = _ := Interpreter.evaluate_bound hlink (.inr hlinkPlaced) i steps
  rw [halone] at hends hresolved ⊢
  rw [hlinked]
  change ((i.bind _).runCommands steps b.entry.program.commands).2 = _ ∧
    ((i.bind _).runCommands steps b.entry.program.commands).1.store = _
  rcases Interpreter.runCommands_agrees
      (Bundle.answers_link hentry hlink hnamed keepLayout) i steps b.entry.program.commands with
    hsame | ⟨-, hsteps | hunresolved⟩
  · exact hsame
  · exact absurd hsteps hends
  · exact absurd hunresolved hresolved

/-- An entry program with a class of cells, and a library with a class derived from it. -/
def cellBundle : Bundle :=
  let value : Var := ⟨.unknown, "value", .unresolved⟩
  let start : Var := ⟨.unknown, "start", .unresolved⟩
  let cell : ClassDecl := ⟨.unknown, "Cell", "", true, [⟨.unknown, .missing, "value"⟩], true,
    [some ⟨.unknown, "Cell", true, [⟨.unknown, .missing, "start"⟩], true,
        [.assign .unknown value (.var .unknown start)], none, 0⟩,
      some ⟨.unknown, "twice", true, [], true, [],
        some ⟨.missing, .binary .unknown "+" (.var .unknown value) (.var .unknown value)⟩, 0⟩]⟩
  let wide : ClassDecl := ⟨.unknown, "WideCell", "Cell", true, [⟨.unknown, .missing, "width"⟩], true, []⟩
  let command : Command := .eval .unknown (.call .unknown
    (.newObject .unknown "Cell" true [.integer .unknown 21]) "twice" true [])
  let clear : Routine := ⟨.unknown, "clear", true, [], true, [], none, 0⟩
  ⟨⟨"main", "main.json", ⟨.unknown, true, [], true, [some cell], true, [command]⟩⟩,
    [⟨"wide", "lib.json", ⟨.unknown, true, [some clear], true, [some wide], true, []⟩⟩]⟩

theorem link_conservative_cells :
    let alone := (Interpreter.fresh 8 .unlimited true).evaluate 60 false
      (some cellBundle.entry.program)
    let linked := (Interpreter.fresh 8 .unlimited true).evaluate 60 false (some cellBundle.link)
    alone.2 = .finished ∧ alone.1.store.printed = #[42] ∧
      linked.2 = alone.2 ∧ linked.1.store = alone.1.store := by
  intro alone linked
  have hends : alone.2 = .finished := by decide +kernel
  have hprinted : alone.1.store.printed = #[42] := by decide +kernel
  refine ⟨hends, hprinted, link_conservative (b := cellBundle) (by decide +kernel)
    (by decide +kernel) (by decide +kernel) (by decide +kernel) ?_ _ 60 false ?_ ?_⟩
  · intro lib hlib r hr
    simp only [cellBundle, List.mem_singleton] at hlib
    subst hlib
    simp only [List.mem_singleton, Option.some.injEq] at hr
    subst hr
    decide
  · change alone.2 ≠ _
    rw [hends]
    decide
  · change ¬ alone.2.FailedWith _
    rw [hends]
    rintro ⟨_, _, ⟨⟩, -⟩

end ObjectLang
