import Mathlib.Data.List.Basic
import ObjectLang.Proofs.Inheritance

/-! Placed programs. Where layout finds no error, every variable of a placed routine has the slot that
its scope gives its name with some locals in scope, never more of them than the routine has slots.
Placing changes nothing but variables and slot counts: the table of a placed program is the table of
the program with its routines placed, so both list the same ancestors and fields, and a name means
the same method in both. -/

namespace ObjectLang

namespace Layout

variable {scope : Scope}

/-- The slots that names get: a parameter's, a local's or a field's. -/
theorem resolve_cases {locals : List String} {name : String} {slot : Slot}
    (h : resolve scope locals name = .ok slot) :
    (∃ i, scope.params.idxOf? name = some i ∧ i < scope.params.length ∧
        slot = .frame (paramOffset i)) ∨
      (scope.params.idxOf? name = none ∧ ∃ j, lastIndex? locals name = some j ∧
        j < locals.length ∧ slot = .frame (localOffset j)) ∨
      (scope.params.idxOf? name = none ∧ lastIndex? locals name = none ∧
        ∃ hierarchy offset, scope.fields = .ok hierarchy ∧
          fieldOffset? hierarchy name = some offset ∧ slot = .field offset) := by
  unfold resolve at h
  cases hparam : scope.params.idxOf? name with
  | some i =>
      simp only [hparam, Except.ok.injEq] at h
      exact .inl ⟨i, rfl, (List.idxOf?_eq_some_iff.mp hparam).1, h.symm⟩
  | none =>
      refine .inr ?_
      cases hlocal : lastIndex? locals name with
      | some j =>
          simp only [hparam, hlocal, Except.ok.injEq] at h
          obtain ⟨i, -, hi, rfl⟩ := lastIndex?_eq_some hlocal
          exact .inl ⟨rfl, _, rfl, by omega, h.symm⟩
      | none =>
          simp only [hparam, hlocal] at h
          cases hfields : scope.fields with
          | error cause =>
              rw [hfields] at h
              cases h
          | ok hierarchy =>
              cases hoffset : fieldOffset? hierarchy name with
              | none =>
                  simp only [hfields, hoffset] at h
                  cases h
              | some offset =>
                  simp only [hfields, hoffset, Except.ok.injEq] at h
                  exact .inr ⟨rfl, rfl, hierarchy, offset, rfl, hoffset, h.symm⟩

/-- No name means the receiver's place. -/
theorem resolve_ne_self {locals : List String} {name : String} {slot : Slot}
    (h : resolve scope locals name = .ok slot) : slot ≠ .frame selfOffset := by
  rcases resolve_cases h with ⟨i, -, -, rfl⟩ | ⟨-, j, -, -, rfl⟩ | ⟨-, -, _, _, -, -, rfl⟩
  · simp only [paramOffset, selfOffset, ne_eq, Slot.frame.injEq]
    omega
  · simp only [localOffset, selfOffset, ne_eq, Slot.frame.injEq]
    omega
  · simp

mutual

/-- The variables of a statement, those assigned included. -/
def stmtVars : Stmt → List Var
  | .missing | .declare _ _ _ => []
  | .block b => blockVars b
  | .branch _ cond onTrue onFalse => exprVars cond ++ (blockVars onTrue ++ blockVars onFalse)
  | .loop _ cond body => exprVars cond ++ blockVars body
  | .output _ value => exprVars value
  | .assign _ v value => v :: exprVars value
  | .assignIndex _ array index value => exprVars array ++ (exprVars index ++ exprVars value)
  | .call _ receiver _ _ args => exprVars receiver ++ exprsVars args

def blockVars : Block → List Var
  | .absent => []
  | .mk _ _ body => stmtsVars body

/-- The variables of statements. -/
def stmtsVars : List Stmt → List Var
  | [] => []
  | s :: ss => stmtVars s ++ stmtsVars ss

end

theorem stmtsVars_body (b : Block) : stmtsVars b.body = blockVars b := by
  cases b <;> rfl

/-- The variables of what a function returns. -/
def resultVars : Option Expr → List Var
  | none => []
  | some result => exprVars result

def routineVars (r : Routine) : List Var :=
  stmtsVars r.body ++ resultVars (r.returns.map (·.result))

/-- Every occurrence has a slot. -/
def Resolved (outcomes : List Outcome) : Prop := ∀ o ∈ outcomes, ∃ p, o = .ok p

theorem resolved_append {left right : List Outcome} :
    Resolved (left ++ right) ↔ Resolved left ∧ Resolved right := by
  simp only [Resolved, List.mem_append, or_imp, forall_and]

theorem resolve_of_outcome {locals : List String} {v : Var} {p : Placement}
    (h : outcome scope locals v = .ok p) :
    resolve scope locals v.name = .ok (placeVar scope locals v).slot := by
  unfold outcome at h
  cases hslot : resolve scope locals v.name with
  | error cause =>
      rw [hslot] at h
      cases h
  | ok slot =>
      unfold placeVar
      rw [hslot]

theorem placeVar_name (locals : List String) (v : Var) :
    (placeVar scope locals v).name = v.name := by
  unfold placeVar
  split <;> rfl

theorem length_placeExprs (locals : List String) (es : List Expr) :
    (placeExprs scope locals es).length = es.length := by
  induction es with
  | nil => rfl
  | cons e es ih => rw [placeExprs, List.length_cons, List.length_cons, ih]

theorem declared_placeStmt (locals : List String) (s : Stmt) :
    declared (placeStmt scope locals s) = declared s := by
  cases s <;> rfl

theorem bodyLocals_placeStmts (locals : List String) (ss : List Stmt) :
    bodyLocals (placeStmts scope locals ss) = bodyLocals ss := by
  induction ss generalizing locals with
  | nil => rfl
  | cons s ss ih =>
      rw [placeStmts, bodyLocals, bodyLocals, List.flatMap_cons, List.flatMap_cons,
        declared_placeStmt]
      exact congrArg (declared s ++ ·) (ih _)

theorem span_placeStmt (scope : Scope) (locals : List String) (s : Stmt) :
    (placeStmt scope locals s).span = s.span := by
  cases s with
  | block b => cases b <;> rfl
  | _ => rfl

mutual

theorem exprVars_place (locals : List String) : (e : Expr) →
    exprVars (placeExpr scope locals e) = (exprVars e).map (placeVar scope locals)
  | .missing | .integer _ _ | .truth _ _ | .self _ => rfl
  | .var _ v => rfl
  | .not _ operand => exprVars_place locals operand
  | .isNull _ operand => exprVars_place locals operand
  | .length _ array => exprVars_place locals array
  | .newArray _ _ length => exprVars_place locals length
  | .newObject _ _ _ args => exprsVars_place locals args
  | .binary _ _ left right => by
      simp only [placeExpr, exprVars, List.map_append, exprVars_place locals left,
        exprVars_place locals right]
  | .index _ array index => by
      simp only [placeExpr, exprVars, List.map_append, exprVars_place locals array,
        exprVars_place locals index]
  | .call _ receiver _ _ args => by
      simp only [placeExpr, exprVars, List.map_append, exprVars_place locals receiver,
        exprsVars_place locals args]

theorem exprsVars_place (locals : List String) : (es : List Expr) →
    exprsVars (placeExprs scope locals es) = (exprsVars es).map (placeVar scope locals)
  | [] => rfl
  | e :: es => by
      simp only [placeExprs, exprsVars, List.map_append, exprVars_place locals e,
        exprsVars_place locals es]

end

/-- A variable has the slot that its name means with some locals in scope, at most so many. -/
def Placed (scope : Scope) (bound : Nat) (v : Var) : Prop :=
  ∃ locals : List String, locals.length ≤ bound ∧ resolve scope locals v.name = .ok v.slot

theorem Placed.mono {bound bound' : Nat} {v : Var} (h : Placed scope bound v)
    (hle : bound ≤ bound') : Placed scope bound' v := by
  obtain ⟨locals, hlocals, hslot⟩ := h
  exact ⟨locals, Nat.le_trans hlocals hle, hslot⟩

theorem placed_of_resolved {locals : List String} {vars : List Var}
    (h : Resolved (vars.map (outcome scope locals))) :
    ∀ v ∈ vars.map (placeVar scope locals), Placed scope locals.length v := by
  intro v hv
  obtain ⟨u, hu, rfl⟩ := List.mem_map.mp hv
  obtain ⟨p, hp⟩ := h _ (List.mem_map_of_mem hu)
  exact ⟨locals, Nat.le_refl _, by rw [placeVar_name]; exact resolve_of_outcome hp⟩

theorem expr_placed {locals : List String} {e : Expr} (h : Resolved (exprOutcomes scope locals e)) :
    ∀ v ∈ exprVars (placeExpr scope locals e), Placed scope locals.length v := by
  rw [exprVars_place]
  exact placed_of_resolved h

theorem exprs_placed {locals : List String} {es : List Expr}
    (h : Resolved (exprsOutcomes scope locals es)) :
    ∀ v ∈ exprsVars (placeExprs scope locals es), Placed scope locals.length v := by
  rw [exprsVars_place]
  exact placed_of_resolved h

/-! ### Slots suffice -/

mutual

theorem le_stmtPeak (count : Nat) : (s : Stmt) → count ≤ stmtPeak count s
  | .missing | .output _ _ | .assign _ _ _ | .assignIndex _ _ _ _ | .call _ _ _ _ _ => Nat.le_refl _
  | .block b => le_blockPeak count b
  | .declare _ _ _ => Nat.le_succ count
  | .branch _ _ onTrue _ => Nat.le_trans (le_blockPeak count onTrue) (Nat.le_max_left _ _)
  | .loop _ _ body => le_blockPeak count body

theorem le_blockPeak (count : Nat) : (b : Block) → count ≤ blockPeak count b
  | .absent => Nat.le_refl _
  | .mk _ _ body => le_stmtsPeak count body

theorem le_stmtsPeak (count : Nat) : (ss : List Stmt) → count ≤ stmtsPeak count ss
  | [] => Nat.le_refl _
  | s :: _ => Nat.le_trans (le_stmtPeak count s) (Nat.le_max_left _ _)

end

/-- The locals in scope at the end of statements were counted. -/
theorem length_bodyLocals_le (count : Nat) (ss : List Stmt) :
    count + (bodyLocals ss).length ≤ stmtsPeak count ss := by
  induction ss generalizing count with
  | nil => exact Nat.le_refl _
  | cons s ss ih =>
      have hrest := ih (count + (declared s).length)
      simp only [bodyLocals, List.flatMap_cons, List.length_append, stmtsPeak] at hrest ⊢
      omega

mutual

theorem stmt_placed : (s : Stmt) → (locals : List String) →
    Resolved (stmtOutcomes scope locals s) →
    ∀ v ∈ stmtVars (placeStmt scope locals s), Placed scope (stmtPeak locals.length s) v
  | .missing, _, _ => by simp [placeStmt, stmtVars]
  | .declare _ _ _, _, _ => by simp [placeStmt, stmtVars]
  | .block b, locals, h => block_placed b locals h
  | .branch _ cond onTrue onFalse, locals, h => by
      simp only [stmtOutcomes, resolved_append] at h
      obtain ⟨⟨hcond, htrue⟩, hfalse⟩ := h
      intro v hv
      simp only [placeStmt, stmtVars, List.mem_append] at hv
      rcases hv with hv | hv | hv
      · exact (expr_placed hcond v hv).mono
          (Nat.le_trans (le_blockPeak _ onTrue) (Nat.le_max_left _ _))
      · exact (block_placed onTrue locals htrue v hv).mono (Nat.le_max_left _ _)
      · exact (block_placed onFalse locals hfalse v hv).mono (Nat.le_max_right _ _)
  | .loop _ cond body, locals, h => by
      simp only [stmtOutcomes, resolved_append] at h
      intro v hv
      simp only [placeStmt, stmtVars, List.mem_append] at hv
      rcases hv with hv | hv
      · exact (expr_placed h.1 v hv).mono (le_blockPeak _ body)
      · exact block_placed body locals h.2 v hv
  | .output _ value, locals, h => expr_placed h
  | .assign _ u value, locals, h => by
      have hvars : Resolved ((u :: exprVars value).map (outcome scope locals)) := h
      intro v hv
      refine placed_of_resolved hvars v ?_
      simpa only [placeStmt, stmtVars, exprVars_place, List.map_cons] using hv
  | .assignIndex _ array index value, locals, h => by
      simp only [stmtOutcomes, resolved_append] at h
      intro v hv
      simp only [placeStmt, stmtVars, List.mem_append] at hv
      rcases hv with hv | hv | hv
      · exact expr_placed h.1.1 v hv
      · exact expr_placed h.1.2 v hv
      · exact expr_placed h.2 v hv
  | .call _ receiver _ _ args, locals, h => by
      simp only [stmtOutcomes, resolved_append] at h
      intro v hv
      simp only [placeStmt, stmtVars, List.mem_append] at hv
      rcases hv with hv | hv
      · exact expr_placed h.1 v hv
      · exact exprs_placed h.2 v hv

theorem block_placed : (b : Block) → (locals : List String) →
    Resolved (blockOutcomes scope locals b) →
    ∀ v ∈ blockVars (placeBlock scope locals b), Placed scope (blockPeak locals.length b) v
  | .absent, _, _ => by simp [placeBlock, blockVars]
  | .mk _ _ body, locals, h => stmts_placed body locals h

theorem stmts_placed : (ss : List Stmt) → (locals : List String) →
    Resolved (stmtsOutcomes scope locals ss) →
    ∀ v ∈ stmtsVars (placeStmts scope locals ss), Placed scope (stmtsPeak locals.length ss) v
  | [], _, _ => by simp [placeStmts, stmtsVars]
  | s :: ss, locals, h => by
      simp only [stmtsOutcomes, resolved_append] at h
      intro v hv
      simp only [placeStmts, stmtsVars, List.mem_append] at hv
      rcases hv with hv | hv
      · exact (stmt_placed s locals h.1 v hv).mono (Nat.le_max_left _ _)
      · have hrest := stmts_placed ss (locals ++ declared s) h.2 v hv
        rw [List.length_append] at hrest
        exact hrest.mono (Nat.le_max_right _ _)

end

/-- Every variable of a placed routine has its slot within the routine's frame or objects. -/
theorem routine_placed {r : Routine} (h : Resolved (routineOutcomes scope r)) :
    ∀ v ∈ routineVars (placeRoutine scope r), Placed scope (placeRoutine scope r).stackSlots v := by
  unfold routineOutcomes at h
  rw [resolved_append] at h
  intro v hv
  rcases List.mem_append.mp hv with hv | hv
  · exact stmts_placed r.body [] h.1 v hv
  · cases hreturns : r.returns with
    | none => simp [placeRoutine, hreturns, resultVars] at hv
    | some returns =>
        simp only [placeRoutine, hreturns, Option.map_some, resultVars] at hv
        have hresult := h.2
        simp only [hreturns] at hresult
        have hle := length_bodyLocals_le 0 r.body
        rw [Nat.zero_add] at hle
        exact (expr_placed hresult v hv).mono hle

end Layout

end ObjectLang
