import Mathlib.Data.List.Perm.Basic
import ObjectLang.Proofs.TableAgreement

/-! The order of declarations. A program may list its routines, its classes and the methods of each
class in any order: its table finds the same declarations, so its routines get the same layouts and its
runs are the same. Only the list of layout errors of a program that cannot be laid out follows the
order of its declarations. -/

namespace ObjectLang

/-- The class has the other's methods in some order, and all else as the other has it. -/
structure ClassDecl.Reordered (c d : ClassDecl) : Prop where
  name : d.name = c.name
  parent : d.parent = c.parent
  fields : d.fields = c.fields
  methods : c.methods.Perm d.methods

theorem ClassDecl.Reordered.symm {c d : ClassDecl} (h : c.Reordered d) : d.Reordered c :=
  ⟨h.name.symm, h.parent.symm, h.fields.symm, h.methods.symm⟩

theorem ClassDecl.Reordered.routines {c d : ClassDecl} (h : c.Reordered d) :
    c.routines.Perm d.routines := h.methods.filterMap id

/-- The program has the other's routines, classes and methods in some order, and its commands. -/
structure Program.Reordered (p q : Program) : Prop where
  routines : p.routines.Perm q.routines
  classes : ∃ classes, p.classes.Perm classes ∧
    List.Forall₂ (Option.Rel ClassDecl.Reordered) classes q.classes
  commands : q.commands = p.commands

theorem forall₂_filterMap_id {α β : Type} {R : α → β → Prop} {l : List (Option α)}
    {l' : List (Option β)} (h : List.Forall₂ (Option.Rel R) l l') :
    List.Forall₂ R (l.filterMap id) (l'.filterMap id) := by
  induction h with
  | nil => exact .nil
  | cons hrel _ ih =>
      cases hrel with
      | some hab => exact .cons hab ih
      | none => exact ih

theorem flatMap_perm {α β γ : Type} {R : α → β → Prop} {f : α → List γ} {g : β → List γ}
    (hfg : ∀ a b, R a b → (f a).Perm (g b)) {l : List α} {l' : List β}
    (h : List.Forall₂ R l l') : (l.flatMap f).Perm (l'.flatMap g) := by
  induction h with
  | nil => exact .nil
  | cons hab _ ih =>
      rw [List.flatMap_cons, List.flatMap_cons]
      exact (hfg _ _ hab).append ih

/-- What a function gives for the routines of a program, in the order in which they stand. -/
def Program.gather {γ : Type} (p : Program) (f : String → Routine → List γ) : List γ :=
  p.topRoutines.flatMap (f "") ++ p.classDecls.flatMap fun c => c.routines.flatMap (f c.name)

/-- Without diagnostics the layouts of a program are those of its routines. -/
theorem Program.layouts_eq_gather {p : Program} (h : (ClassTable.build p).2 = []) :
    p.layouts (ClassTable.build p).1 =
      p.gather fun owner r => [Layout.routineLayout (ClassTable.build p).1 owner r] := by
  rw [layouts, gather, List.map_eq_flatMap]
  congr 1
  refine List.flatMap_congr fun decl hdecl => ?_
  rw [Layout.classLayouts, if_pos (ClassTable.isKnown_of_diagnostics h hdecl), List.map_eq_flatMap]
  rfl

/-- Without diagnostics the layout errors of a program are those of its routines. -/
theorem Program.layoutErrors_eq_gather {p : Program} (h : (ClassTable.build p).2 = []) :
    p.layoutErrors (ClassTable.build p).1 =
      p.gather (Layout.routineErrors (ClassTable.build p).1) := by
  rw [layoutErrors, gather]
  congr 1
  refine List.flatMap_congr fun decl hdecl => ?_
  rw [Layout.classErrors, if_pos (ClassTable.isKnown_of_diagnostics h hdecl)]
  rfl

namespace Program.Reordered

variable {p q : Program} (h : p.Reordered q)
include h

theorem symm : q.Reordered p := by
  obtain ⟨classes, hperm, hrel⟩ := h.classes
  have hback : List.Forall₂ (Option.Rel ClassDecl.Reordered) q.classes classes := by
    refine hrel.flip.imp fun d c hcd => ?_
    cases hcd with
    | some hcd => exact .some hcd.symm
    | none => exact .none
  obtain ⟨classes', hrel', hperm'⟩ := List.perm_comp_forall₂ hperm hback.flip
  refine ⟨h.routines.symm, ⟨classes', hperm'.symm, hrel'.flip⟩, h.commands.symm⟩

theorem topRoutines : p.topRoutines.Perm q.topRoutines := h.routines.filterMap id

theorem classDecls : ∃ classes, p.classDecls.Perm classes ∧
    List.Forall₂ ClassDecl.Reordered classes q.classDecls := by
  obtain ⟨classes, hperm, hrel⟩ := h.classes
  exact ⟨classes.filterMap id, hperm.filterMap id, forall₂_filterMap_id hrel⟩

theorem mem_classDecls {c : ClassDecl} (hc : c ∈ p.classDecls) :
    ∃ d ∈ q.classDecls, c.Reordered d := by
  obtain ⟨classes, hperm, hrel⟩ := h.classDecls
  obtain ⟨n, hn, hget⟩ := List.mem_iff_getElem.mp (hperm.mem_iff.mp hc)
  have hn' : n < q.classDecls.length := by
    rw [← hrel.length_eq]
    exact hn
  refine ⟨q.classDecls[n], List.getElem_mem hn', ?_⟩
  rw [← hget]
  exact hrel.get hn hn'

theorem gather_perm {γ : Type} (f : String → Routine → List γ) : (p.gather f).Perm (q.gather f) := by
  obtain ⟨classes, hperm, hrel⟩ := h.classDecls
  apply (h.topRoutines.flatMap_right (f "")).append
  calc (p.classDecls.flatMap fun c => c.routines.flatMap (f c.name)).Perm
        (classes.flatMap fun c => c.routines.flatMap (f c.name)) := hperm.flatMap_right _
    _ |>.Perm (q.classDecls.flatMap fun d => d.routines.flatMap (f d.name)) := by
        refine flatMap_perm (fun c d hcd => ?_) hrel
        rw [hcd.name]
        exact hcd.routines.flatMap_right _

/-! ### The tables of both programs -/

theorem distinct (hp : p.Distinct) : q.Distinct := by
  constructor
  · exact (h.topRoutines.map _).nodup_iff.mp hp.routines
  · obtain ⟨classes, hperm, hrel⟩ := h.classDecls
    have hnames : (classes.map (·.name)).Perm (q.classDecls.map (·.name)) := by
      rw [List.map_eq_flatMap, List.map_eq_flatMap]
      exact flatMap_perm (fun c d hcd => by rw [hcd.name]) hrel
    exact ((hperm.map _).trans hnames).nodup_iff.mp hp.classes
  · intro d hd
    obtain ⟨c, hc, hdc⟩ := h.symm.mem_classDecls hd
    exact (hdc.routines.map _).nodup_iff.mpr (hp.methods c hc)

theorem agrees (hp : p.Distinct) {c d : ClassDecl} (hc : c ∈ p.classDecls) (hd : d ∈ q.classDecls)
    (hcd : c.Reordered d) : c.info.Agrees d.info := by
  refine ⟨hcd.parent, by rw [ClassDecl.info, hcd.fields]; rfl, fun name => ?_⟩
  have hmem (m : Method) : m ∈ d.info.methods ↔ m ∈ c.info.methods := by
    rw [ClassDecl.info, ClassDecl.info, hcd.name]
    exact (hcd.routines.map _).mem_iff.symm
  apply Option.ext
  intro m
  rw [(h.distinct hp).findMethod?_class hd, hp.findMethod?_class hc, hmem]

theorem partOf (hp : p.Distinct) : p.declarations.PartOf q.declarations := by
  apply hp.partOf (h.distinct hp)
  · intro r hr
    exact h.topRoutines.mem_iff.mp hr
  · intro c hc
    obtain ⟨d, hd, hcd⟩ := h.mem_classDecls hc
    exact ⟨d, hd, hcd.name, h.agrees hp hc hd hcd⟩

/-- Whether a program has diagnostics does not depend on the order of its declarations. -/
theorem diagnostics (hp : (ClassTable.build p).2 = []) : (ClassTable.build q).2 = [] := by
  obtain ⟨hdistinct, hcheck⟩ := (ClassTable.diagnostics_eq_nil_iff p).mp hp
  have hsettled := ClassTable.settled_declarations hdistinct hcheck
  have hpart := h.partOf hdistinct
  refine (ClassTable.diagnostics_eq_nil_iff q).mpr ⟨h.distinct hdistinct, fun info hinfo => ?_⟩
  obtain ⟨d, hd, rfl⟩ := List.mem_map.mp hinfo
  obtain ⟨c, hc, hdc⟩ := h.symm.mem_classDecls hd
  have hc' : c.info ∈ p.declarations.classes := List.mem_map_of_mem hc
  have hnone := hcheck c.info hc'
  obtain ⟨infos, hchain⟩ := hsettled c.info hc'
  obtain ⟨infos', hchain', -⟩ := hpart.chain hchain
  have hname : d.info.name = c.info.name := hdc.name.symm
  have hparent : d.info.parent = c.info.parent := hdc.parent.symm
  unfold ClassTable.inheritanceCheck at hnone ⊢
  rw [hname, hparent, hchain']
  split at hnone
  · next hroot => rw [if_pos hroot]
  · next hroot =>
      rw [if_neg hroot]
      split at hnone
      · cases hnone
      · next hdeclared =>
          rw [Option.isNone_iff_eq_none] at hdeclared
          obtain ⟨parent, hparent⟩ := Option.ne_none_iff_exists'.mp hdeclared
          obtain ⟨parent', hparent', -⟩ := hpart.classes _ parent hparent
          rw [hparent']
          rfl

variable (hp : (ClassTable.build p).2 = [])
include hp

theorem partOf_build : (ClassTable.build p).1.PartOf (ClassTable.build q).1 := by
  rw [ClassTable.build_of_diagnostics hp, ClassTable.build_of_diagnostics (h.diagnostics hp)]
  exact h.partOf (ClassTable.distinct_of_build hp)

/-- The scope of a routine is the same in both programs. -/
theorem routineScope :
    Layout.routineScope (ClassTable.build q).1 = Layout.routineScope (ClassTable.build p).1 := by
  have hq := h.diagnostics hp
  funext className r
  have hfields := (ClassTable.settled_build hp).fieldHierarchy_eq (h.partOf_build hp)
    (h.symm.partOf_build hq) (ClassTable.settled_build hq) className
  rw [Layout.routineScope, hfields]
  rfl

theorem placeClass {c d : ClassDecl} (hcd : c.Reordered d) :
    (Layout.placeClass (ClassTable.build p).1 c).Reordered
      (Layout.placeClass (ClassTable.build q).1 d) := by
  have hknown : Layout.isKnown (ClassTable.build q).1 d = Layout.isKnown (ClassTable.build p).1 c := by
    rw [Layout.isKnown, Layout.isKnown, hcd.name, Bool.eq_iff_iff]
    exact ⟨(h.symm.partOf_build (h.diagnostics hp)).isSome_scope?, (h.partOf_build hp).isSome_scope?⟩
  unfold Layout.placeClass
  rw [hknown, h.routineScope hp, hcd.name]
  split
  · exact ⟨rfl, hcd.parent, hcd.fields, hcd.methods.map _⟩
  · exact hcd

/-- The placed programs differ in the order of their declarations only. -/
theorem place : (p.place (ClassTable.build p).1).Reordered (q.place (ClassTable.build q).1) := by
  obtain ⟨classes, hperm, hrel⟩ := h.classes
  refine ⟨?_, ⟨classes.map (Option.map (Layout.placeClass (ClassTable.build p).1)), hperm.map _, ?_⟩,
    h.commands⟩
  · rw [Program.place, Program.place, h.routineScope hp]
    exact h.routines.map _
  · change List.Forall₂ _ _ (q.classes.map (Option.map (Layout.placeClass (ClassTable.build q).1)))
    rw [List.forall₂_map_left_iff, List.forall₂_map_right_iff]
    refine hrel.imp fun c d hcd => ?_
    cases hcd with
    | some hcd => exact .some (h.placeClass hp hcd)
    | none => exact .none

theorem layouts_perm :
    (p.layouts (ClassTable.build p).1).Perm (q.layouts (ClassTable.build q).1) := by
  rw [layouts_eq_gather hp, layouts_eq_gather (h.diagnostics hp)]
  unfold Layout.routineLayout
  rw [h.routineScope hp]
  exact h.gather_perm _

theorem layoutErrors_perm :
    (p.layoutErrors (ClassTable.build p).1).Perm (q.layoutErrors (ClassTable.build q).1) := by
  rw [layoutErrors_eq_gather hp, layoutErrors_eq_gather (h.diagnostics hp)]
  unfold Layout.routineErrors
  rw [h.routineScope hp]
  exact h.gather_perm _

/-- The tables that both programs run with answer alike. -/
theorem answers (keepLayout : Bool) :
    (Interpreter.boundTable keepLayout p).Answers False (Interpreter.boundTable keepLayout q) := by
  have hq := h.diagnostics hp
  have hpart := Interpreter.partOf_boundTable hp hq (h.partOf_build hp) keepLayout
  have hback := Interpreter.partOf_boundTable hq hp (h.symm.partOf_build hq) keepLayout
  exact (Interpreter.settled_boundTable hp keepLayout).answers hpart hback
    (Interpreter.settled_boundTable hq keepLayout)

theorem evaluate_same {keepLayout : Bool}
    (hlayout : keepLayout = true ∨ p.layoutErrors (ClassTable.build p).1 = []) (i : Interpreter)
    (steps : Nat) :
    let left := i.evaluate steps keepLayout (some p)
    let right := i.evaluate steps keepLayout (some q)
    right.2 = left.2 ∧ right.1.store = left.1.store := by
  intro left right
  have hlayout' : keepLayout = true ∨ q.layoutErrors (ClassTable.build q).1 = [] := by
    refine hlayout.imp_right fun hnone => ?_
    have hperm := h.layoutErrors_perm hp
    rw [hnone] at hperm
    exact hperm.nil_eq.symm
  have hleft : left = _ := Interpreter.evaluate_bound hp hlayout i steps
  have hright : right = _ := Interpreter.evaluate_bound (h.diagnostics hp) hlayout' i steps
  rw [hleft, hright, h.commands]
  rcases Interpreter.runCommands_agrees (h.answers hp keepLayout) i steps p.commands with
    hsame | ⟨hgaps, -⟩
  · exact hsame
  · exact hgaps.elim

end Program.Reordered

/-- **The order of declarations is irrelevant.** Let one program list the routines, the classes and the
methods of another in any order. One has diagnostics exactly if the other has. Without diagnostics one
can be laid out exactly if the other can, with the same layout errors but for their order; both are
laid out alike, and their runs leave the same store. They end alike too, unless the layout errors keep
both from running: each then reports them in the order of its own declarations. -/
theorem declaration_order_irrelevant {p q : Program} (h : p.Reordered q) :
    ((ClassTable.build p).2 = [] ↔ (ClassTable.build q).2 = []) ∧
    ((ClassTable.build p).2 = [] →
      let errors := p.layoutErrors (ClassTable.build p).1
      let errors' := q.layoutErrors (ClassTable.build q).1
      (errors = [] ↔ errors' = []) ∧ errors.Perm errors' ∧
      (p.layouts (ClassTable.build p).1).Perm (q.layouts (ClassTable.build q).1) ∧
      (p.place (ClassTable.build p).1).Reordered (q.place (ClassTable.build q).1) ∧
      ∀ (i : Interpreter) (steps : Nat) (keepLayout : Bool),
        let left := i.evaluate steps keepLayout (some p)
        let right := i.evaluate steps keepLayout (some q)
        right.1.store = left.1.store ∧
        (keepLayout = true ∨ errors = [] → right.2 = left.2) ∧
        (keepLayout = false → errors ≠ [] →
          left.2 = .failed (.plain (LayoutError.messages errors)) ∧
          right.2 = .failed (.plain (LayoutError.messages errors')))) := by
  refine ⟨⟨h.diagnostics, h.symm.diagnostics⟩, fun hp => ?_⟩
  intro errors errors'
  have hperm : errors.Perm errors' := h.layoutErrors_perm hp
  have hnone : errors = [] ↔ errors' = [] := by
    rw [← List.length_eq_zero_iff, hperm.length_eq, List.length_eq_zero_iff]
  refine ⟨hnone, hperm, h.layouts_perm hp, h.place hp, fun i steps keepLayout => ?_⟩
  intro left right
  by_cases hlayout : keepLayout = true ∨ errors = []
  · obtain ⟨hending, hstore⟩ := h.evaluate_same hp hlayout i steps
    refine ⟨hstore, fun _ => hending, fun hkeep herrors => ?_⟩
    rw [hkeep] at hlayout
    simp [herrors] at hlayout
  · rw [not_or, Bool.not_eq_true] at hlayout
    obtain ⟨rfl, herrors⟩ := hlayout
    have hleft : left = _ := i.evaluate_unplaced hp herrors steps
    have hright : right = _ := i.evaluate_unplaced (h.diagnostics hp) (mt hnone.mpr herrors) steps
    rw [hleft, hright]
    refine ⟨rfl, fun hcase => absurd hcase (by simpa using herrors), fun _ _ => ⟨rfl, rfl⟩⟩

/-- Squares derived from shapes; the lists of methods are as given. -/
def shapeClasses (order : List (Option Routine) → List (Option Routine)) : ClassDecl × ClassDecl :=
  let side : Expr := .var .unknown ⟨.unknown, "side", .unresolved⟩
  let area : Expr := .call .unknown (.self .unknown) "area" true []
  (⟨.unknown, "Square", "Shape", true, [⟨.unknown, .missing, "side"⟩], true, order
    [some ⟨.unknown, "Square", true, [⟨.unknown, .missing, "start"⟩], true,
        [.assign .unknown ⟨.unknown, "side", .unresolved⟩
          (.var .unknown ⟨.unknown, "start", .unresolved⟩)], none, 0⟩,
      some ⟨.unknown, "area", true, [], true, [],
        some ⟨.missing, .binary .unknown "*" side side⟩, 0⟩]⟩,
    ⟨.unknown, "Shape", "", true, [], true, order
    [some ⟨.unknown, "area", true, [], true, [], some ⟨.missing, .integer .unknown 0⟩, 0⟩,
      some ⟨.unknown, "twice", true, [], true, [],
        some ⟨.missing, .binary .unknown "+" area area⟩, 0⟩]⟩)

/-- A program that prints twice the area of a square. -/
def shapeProgram (classes : List (Option ClassDecl)) : Program :=
  ⟨.unknown, true, [], true, classes, true, [.eval .unknown (.call .unknown
    (.newObject .unknown "Square" true [.integer .unknown 3]) "twice" true [])]⟩

def shapesForward : Program := shapeProgram [some (shapeClasses id).1, some (shapeClasses id).2]

/-- The same program with its declarations in the opposite order. -/
def shapesBackward : Program :=
  shapeProgram [some (shapeClasses List.reverse).2, some (shapeClasses List.reverse).1]

theorem declaration_order_of_shapes :
    let evaluate (program : Program) :=
      (Interpreter.fresh 8 .unlimited true).evaluate 200 false (some program)
    shapesForward.Reordered shapesBackward ∧ (ClassTable.build shapesForward).2 = [] ∧
      (evaluate shapesForward).2 = .finished ∧
      (evaluate shapesForward).1.store.printed = #[18] ∧
      (evaluate shapesBackward).2 = (evaluate shapesForward).2 ∧
      (evaluate shapesBackward).1.store = (evaluate shapesForward).1.store := by
  intro evaluate
  have horder : shapesForward.Reordered shapesBackward := by
    refine ⟨.nil, ⟨[some (shapeClasses id).2, some (shapeClasses id).1], .swap _ _ _, ?_⟩, rfl⟩
    exact .cons (.some ⟨rfl, rfl, rfl, .swap _ _ _⟩) (.cons (.some ⟨rfl, rfl, rfl, .swap _ _ _⟩) .nil)
  have hdiagnostics : (ClassTable.build shapesForward).2 = [] := by decide +kernel
  have hlayout : shapesForward.layoutErrors (ClassTable.build shapesForward).1 = [] := by
    decide +kernel
  have hfinished : (evaluate shapesForward).2 = .finished := by decide +kernel
  have hprinted : (evaluate shapesForward).1.store.printed = #[18] := by decide +kernel
  obtain ⟨-, hsame⟩ := declaration_order_irrelevant horder
  obtain ⟨-, -, -, -, hruns⟩ := hsame hdiagnostics
  obtain ⟨hstore, hending, -⟩ := hruns (.fresh 8 .unlimited true) 200 false
  exact ⟨horder, hdiagnostics, hfinished, hprinted, hending (.inr hlayout), hstore⟩

/-- A routine that prints a variable nobody declares. -/
def looseRoutine (name unbound : String) : Routine :=
  ⟨.unknown, name, true, [], true, [.output .unknown (.var .unknown ⟨.unknown, unbound, .unresolved⟩)],
    none, 0⟩

def looseProgram (first second : Routine) : Program :=
  ⟨.unknown, true, [some first, some second], true, [], true, []⟩

/-- The error of a program that cannot be laid out follows the order of its declarations. -/
theorem layout_errors_follow_order :
    let p := looseProgram (looseRoutine "left" "x") (looseRoutine "right" "y")
    let q := looseProgram (looseRoutine "right" "y") (looseRoutine "left" "x")
    let evaluate (program : Program) :=
      (Interpreter.fresh 8 .unlimited false).evaluate 20 false (some program)
    p.Reordered q ∧ (ClassTable.build p).2 = [] ∧
      (evaluate p).2 = .failed (.plain ("allocator: x is not a parameter, local or field in top level\n" ++
        "allocator: y is not a parameter, local or field in top level")) ∧
      (evaluate q).2 = .failed (.plain ("allocator: y is not a parameter, local or field in top level\n" ++
        "allocator: x is not a parameter, local or field in top level")) ∧
      (evaluate q).2 ≠ (evaluate p).2 := by
  intro p q evaluate
  refine ⟨⟨.swap _ _ _, ⟨[], .nil, .nil⟩, rfl⟩, ?_, ?_, ?_, ?_⟩
  all_goals decide +kernel

end ObjectLang
