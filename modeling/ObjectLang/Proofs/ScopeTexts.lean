import Mathlib.Data.List.Infix
import Mathlib.Order.Bounds.Defs
import ObjectLang.Proofs.Placement

/-! The code of a routine as a text that is read from left to right: it uses variables, declares
locals, and opens and closes blocks. A local is in scope from its declaration up to where the block is
closed that it stands in. So the locals in scope behind a text are found from its brackets alone, a
declaration is counted at the same place as long as it is in scope, and the greatest number of locals in
scope at once is that which layout counts. -/

namespace ObjectLang

namespace ScopeRule

open Layout

/-- What counts in the text of a routine. -/
inductive Mark where
  | use (v : Var)
  | declare (name : String)
  | opens
  | closes

/-- The text of variables that are used one after the other. -/
def varsText (vars : List Var) : List Mark := vars.map .use

mutual

def stmtText : Stmt → List Mark
  | .missing => []
  | .block b => blockText b
  | .declare _ _ name => [.declare name]
  | .branch _ cond onTrue onFalse =>
    varsText (exprVars cond) ++ (blockText onTrue ++ blockText onFalse)
  | .loop _ cond body => varsText (exprVars cond) ++ blockText body
  | .output _ value => varsText (exprVars value)
  | .assign _ v value => varsText (v :: exprVars value)
  | .assignIndex _ array index value =>
    varsText (exprVars array ++ exprVars index ++ exprVars value)
  | .call _ receiver _ _ args => varsText (exprVars receiver ++ exprsVars args)

/-- The text of a block, between its opening and its closing. -/
def blockText : Block → List Mark
  | .absent => []
  | .mk _ _ body => .opens :: (stmtsText body ++ [.closes])

def stmtsText : List Stmt → List Mark
  | [] => []
  | s :: ss => stmtText s ++ stmtsText ss

end

/-- The text of a routine: its body and what it returns. -/
def routineText (r : Routine) : List Mark :=
  stmtsText r.body ++ varsText (resultVars (r.returns.map (·.result)))

/-- How many more blocks a mark opens than it closes. -/
def Mark.weight : Mark → Int
  | .opens => 1
  | .closes => -1
  | .use _ | .declare _ => 0

/-- How many more blocks a text opens than it closes. -/
def net : List Mark → Int
  | [] => 0
  | m :: rest => m.weight + net rest

/-- A text that closes no blocks but those that it opens: what is open before it stays open. -/
def KeepsOpen (text : List Mark) : Prop := ∀ start, start <+: text → 0 ≤ net start

instance (text : List Mark) : Decidable (KeepsOpen text) :=
  decidable_of_iff (∀ start ∈ text.inits, 0 ≤ net start) (by simp only [List.mem_inits, KeepsOpen])

def Mark.declares : Mark → List String
  | .declare name => [name]
  | .use _ | .opens | .closes => []

/-- A declaration in a text. -/
structure Declaration where
  position : Nat
  name : String
  deriving DecidableEq

/-- The declarations in scope behind a text that starts at a position: those whose blocks stay open in
what is behind them. -/
def inScope (start : Nat) : List Mark → List Declaration
  | [] => []
  | m :: rest =>
    (if KeepsOpen rest then m.declares.map (Declaration.mk start) else []) ++
      inScope (start + 1) rest

def localsAfter (text : List Mark) : List String := (inScope 0 text).map (·.name)

/-- The offset of a declaration in a text: the next one after those of the locals in scope there. -/
def slotOffset (text : List Mark) (d : Declaration) : Int :=
  1 + ((localsAfter (text.take d.position)).length : Int)

def Mark.used : Mark → List Var
  | .use v => [v]
  | .declare _ | .opens | .closes => []

/-- A use of a variable, and the locals in scope there. -/
structure Use where
  locals : List String
  var : Var

def uses (before : List Mark) : List Mark → List Use
  | [] => []
  | m :: rest => m.used.map (Use.mk (localsAfter before)) ++ uses (before ++ [m]) rest

def routineUses (r : Routine) : List Use := uses [] (routineText r)

theorem net_cons (m : Mark) (text : List Mark) : net (m :: text) = m.weight + net text := rfl

theorem net_append (before after : List Mark) : net (before ++ after) = net before + net after := by
  induction before with
  | nil => exact (Int.zero_add _).symm
  | cons m rest ih => rw [List.cons_append, net_cons, net_cons, ih, Int.add_assoc]

/-- A prefix of two lists ends in the first of them or in the second. -/
theorem prefix_append_cases {α : Type} {start before after : List α} (h : start <+: before ++ after) :
    start <+: before ∨ ∃ rest, rest <+: after ∧ start = before ++ rest := by
  rcases List.prefix_or_prefix_of_prefix h (List.prefix_append before after) with h' | ⟨rest, rfl⟩
  · exact .inl h'
  · exact .inr ⟨rest, (List.prefix_append_right_inj before).mp h, rfl⟩

theorem keepsOpen_nil : KeepsOpen [] := by
  intro start hstart
  rw [List.prefix_nil.mp hstart]
  exact Int.le_refl 0

theorem KeepsOpen.of_prefix {start text : List Mark} (h : KeepsOpen text) (hstart : start <+: text) :
    KeepsOpen start :=
  fun first hfirst => h first (hfirst.trans hstart)

theorem KeepsOpen.append {before after : List Mark} (hbefore : KeepsOpen before)
    (hafter : KeepsOpen after) : KeepsOpen (before ++ after) := by
  intro start hstart
  rcases prefix_append_cases hstart with hstart | ⟨rest, hrest, rfl⟩
  · exact hbefore start hstart
  · rw [net_append]
    have hnonneg := hbefore before (List.prefix_refl before)
    have hnonneg' := hafter rest hrest
    omega

theorem keepsOpen_append_iff {before after : List Mark} (hafter : KeepsOpen after) :
    KeepsOpen (before ++ after) ↔ KeepsOpen before :=
  ⟨fun h => h.of_prefix (List.prefix_append before after), fun h => h.append hafter⟩

theorem KeepsOpen.cons {m : Mark} {text : List Mark} (h : KeepsOpen text) (hweight : 0 ≤ m.weight) :
    KeepsOpen (m :: text) := by
  intro start hstart
  rcases List.prefix_cons_iff.mp hstart with rfl | ⟨rest, rfl, hrest⟩
  · exact Int.le_refl 0
  · rw [net_cons]
    have hnonneg := h rest hrest
    omega

/-- A text that closes all blocks that it opens, and no others. -/
structure Balanced (text : List Mark) : Prop where
  keeps : KeepsOpen text
  even : net text = 0

theorem Balanced.append {before after : List Mark} (hbefore : Balanced before)
    (hafter : Balanced after) : Balanced (before ++ after) := by
  refine ⟨hbefore.keeps.append hafter.keeps, ?_⟩
  rw [net_append, hbefore.even, hafter.even]
  rfl

theorem Balanced.cons {m : Mark} {text : List Mark} (h : Balanced text) (hweight : m.weight = 0) :
    Balanced (m :: text) := by
  refine ⟨h.keeps.cons (Int.le_of_eq hweight.symm), ?_⟩
  rw [net_cons, hweight, h.even]
  rfl

theorem balanced_nil : Balanced [] := ⟨keepsOpen_nil, rfl⟩

theorem balanced_varsText (vars : List Var) : Balanced (varsText vars) := by
  induction vars with
  | nil => exact balanced_nil
  | cons v vars ih => exact ih.cons rfl

/-- A balanced text stays balanced between an opening and a closing. -/
theorem Balanced.enclosed {text : List Mark} (h : Balanced text) :
    Balanced (.opens :: (text ++ [.closes])) := by
  constructor
  · intro start hstart
    rcases List.prefix_cons_iff.mp hstart with rfl | ⟨rest, rfl, hrest⟩
    · exact Int.le_refl 0
    · rw [net_cons]
      rcases List.prefix_concat_iff.mp hrest with rfl | hrest
      · rw [net_append, h.even]
        decide
      · have hnonneg := h.keeps rest hrest
        simp only [Mark.weight]
        omega
  · rw [net_cons, net_append, h.even]
    rfl

mutual

theorem balanced_stmtText : (s : Stmt) → Balanced (stmtText s)
  | .missing => balanced_nil
  | .block b => balanced_blockText b
  | .declare _ _ _ => balanced_nil.cons rfl
  | .branch _ cond onTrue onFalse =>
      (balanced_varsText (exprVars cond)).append
        ((balanced_blockText onTrue).append (balanced_blockText onFalse))
  | .loop _ cond body => (balanced_varsText (exprVars cond)).append (balanced_blockText body)
  | .output _ _ | .assign _ _ _ | .assignIndex _ _ _ _ | .call _ _ _ _ _ => balanced_varsText _

theorem balanced_blockText : (b : Block) → Balanced (blockText b)
  | .absent => balanced_nil
  | .mk _ _ body => (balanced_stmtsText body).enclosed

theorem balanced_stmtsText : (ss : List Stmt) → Balanced (stmtsText ss)
  | [] => balanced_nil
  | s :: ss => (balanced_stmtText s).append (balanced_stmtsText ss)

end

theorem length_localsAfter (text : List Mark) : (localsAfter text).length = (inScope 0 text).length :=
  List.length_map _

theorem names_inScope (start : Nat) (text : List Mark) :
    (inScope start text).map (·.name) = localsAfter text := by
  have hshift : ∀ n m, (inScope n text).map (·.name) = (inScope m text).map (·.name) := by
    induction text with
    | nil => exact fun _ _ => rfl
    | cons m rest ih =>
        intro n k
        simp only [inScope, List.map_append]
        rw [ih (n + 1) (k + 1)]
        congr 1
        split
        · simp only [List.map_map]
          rfl
        · rfl
  exact hshift start 0

/-- Behind a text that keeps blocks open, the locals before it are still in scope. -/
theorem inScope_append {before after : List Mark} (h : KeepsOpen after) (start : Nat) :
    inScope start (before ++ after) =
      inScope start before ++ inScope (start + before.length) after := by
  induction before generalizing start with
  | nil => rfl
  | cons m rest ih =>
      simp only [List.cons_append, inScope, keepsOpen_append_iff h, ih, List.append_assoc,
        List.length_cons]
      rw [Nat.add_right_comm, Nat.add_assoc start]

theorem localsAfter_append {before after : List Mark} (h : KeepsOpen after) :
    localsAfter (before ++ after) = localsAfter before ++ localsAfter after := by
  rw [localsAfter, inScope_append h, List.map_append, names_inScope, names_inScope]

/-- Nothing stays in scope if each declaration's block is closed behind it. -/
theorem inScope_eq_nil {text : List Mark}
    (h : ∀ before m after, text = before ++ m :: after → m.declares ≠ [] → ¬ KeepsOpen after)
    (start : Nat) : inScope start text = [] := by
  induction text generalizing start with
  | nil => rfl
  | cons m rest ih =>
      rw [inScope, ih (fun before m' after heq => h (m :: before) m' after (by rw [heq]; rfl)),
        List.append_nil]
      by_cases hdeclares : m.declares = []
      · rw [hdeclares, List.map_nil, ite_self]
      · rw [if_neg (h [] m rest rfl hdeclares)]

/-- Behind a block, nothing that was declared in it is in scope. -/
theorem localsAfter_enclosed {text : List Mark} (h : Balanced text) :
    localsAfter (.opens :: (text ++ [.closes])) = [] := by
  have hinner : inScope 1 (text ++ [.closes]) = [] := by
    refine inScope_eq_nil (fun before m after heq hdeclares hkeeps => ?_) 1
    have hprefix : before ++ [m] <+: text ++ [.closes] := ⟨after, by rw [heq]; simp⟩
    rcases List.prefix_concat_iff.mp hprefix with hwhole | hinside
    · have hlast : m = .closes := List.singleton_inj.mp (List.append_inj_right' hwhole rfl)
      rw [hlast] at hdeclares
      exact hdeclares rfl
    · have hnet : net (before ++ [m]) + net after = -1 := by
        rw [← net_append, List.append_assoc, List.singleton_append, ← heq, net_append, h.even]
        rfl
      have hbefore := h.keeps _ hinside
      have hafter := hkeeps after (List.prefix_refl after)
      omega
  rw [localsAfter, inScope, hinner, List.append_nil]
  split <;> rfl

example : localsAfter [.declare "x", .opens, .declare "y", .closes, .declare "z"] = ["x", "z"] := by
  decide

theorem localsAfter_varsText (vars : List Var) : localsAfter (varsText vars) = [] := by
  have hnone : inScope 0 (varsText vars) = [] := by
    refine inScope_eq_nil (fun before m after heq hdeclares => ?_) 0
    have hm : m ∈ varsText vars := heq ▸ List.mem_append_right before List.mem_cons_self
    obtain ⟨v, -, rfl⟩ := List.mem_map.mp hm
    exact absurd rfl hdeclares
  rw [localsAfter, hnone]
  rfl

theorem localsAfter_blockText (b : Block) : localsAfter (blockText b) = [] := by
  cases b with
  | absent => rfl
  | mk span listed body => exact localsAfter_enclosed (balanced_stmtsText body)

/-- Behind a statement, what it declares is in scope. -/
theorem localsAfter_stmtText (s : Stmt) : localsAfter (stmtText s) = declared s := by
  cases s with
  | missing => rfl
  | block b => exact localsAfter_blockText b
  | declare span type name =>
      simp only [stmtText, localsAfter, inScope, if_pos keepsOpen_nil]
      rfl
  | branch span cond onTrue onFalse =>
      rw [stmtText, localsAfter_append ((balanced_blockText onTrue).append
          (balanced_blockText onFalse)).keeps,
        localsAfter_append (balanced_blockText onFalse).keeps, localsAfter_varsText,
        localsAfter_blockText, localsAfter_blockText]
      rfl
  | loop span cond body =>
      rw [stmtText, localsAfter_append (balanced_blockText body).keeps, localsAfter_varsText,
        localsAfter_blockText]
      rfl
  | _ => exact localsAfter_varsText _

theorem localsAfter_stmtsText (ss : List Stmt) : localsAfter (stmtsText ss) = bodyLocals ss := by
  induction ss with
  | nil => rfl
  | cons s ss ih =>
      rw [stmtsText, localsAfter_append (balanced_stmtsText ss).keeps, localsAfter_stmtText, ih]
      rfl

/-- Where a declaration in scope stands: as many are in scope before it as are listed before it. -/
theorem inScope_split {start : Nat} {text : List Mark} {j : Nat} {d : Declaration}
    (h : (inScope start text)[j]? = some d) :
    ∃ before after, text = before ++ .declare d.name :: after ∧ KeepsOpen after ∧
      d.position = start + before.length ∧ (inScope start before).length = j := by
  induction text generalizing start j with
  | nil => cases h
  | cons m rest ih =>
      have hbehind : ∀ k, (inScope (start + 1) rest)[k]? = some d →
          k + (if KeepsOpen rest then m.declares.length else 0) = j →
          ∃ before after, m :: rest = before ++ .declare d.name :: after ∧ KeepsOpen after ∧
            d.position = start + before.length ∧ (inScope start before).length = j := by
        intro k hk hj
        obtain ⟨before, after, rfl, hafter, hposition, hlength⟩ := ih hk
        have hiff : KeepsOpen (before ++ .declare d.name :: after) ↔ KeepsOpen before :=
          keepsOpen_append_iff (hafter.cons (Int.le_refl 0))
        refine ⟨m :: before, after, rfl, hafter, ?_, ?_⟩
        · rw [hposition, List.length_cons, Nat.add_assoc, Nat.add_comm 1]
        · rw [inScope, List.length_append, hlength, ← hj, Nat.add_comm]
          simp only [hiff]
          split <;> simp
      rw [inScope] at h
      by_cases hrest : KeepsOpen rest
      · rw [if_pos hrest] at h
        cases m with
        | declare name =>
            cases j with
            | zero =>
                cases h
                exact ⟨[], rest, rfl, hrest, rfl, rfl⟩
            | succ j => exact hbehind j h (by rw [if_pos hrest]; rfl)
        | _ => exact hbehind j h (by rw [if_pos hrest]; rfl)
      · rw [if_neg hrest] at h
        exact hbehind j h (by rw [if_neg hrest]; rfl)

/-- A declaration has the same offset wherever it is in scope. -/
theorem slotOffset_eq {start text : List Mark} (hstart : start <+: text) {j : Nat} {d : Declaration}
    (h : (inScope 0 start)[j]? = some d) : slotOffset text d = 1 + j := by
  obtain ⟨before, after, rfl, -, hposition, hlength⟩ := inScope_split h
  obtain ⟨rest, rfl⟩ := hstart
  have htake : ((before ++ .declare d.name :: after) ++ rest).take d.position = before := by
    rw [hposition, Nat.zero_add, List.append_assoc, List.take_left]
  rw [slotOffset, htake, length_localsAfter, hlength]

theorem eq_of_slotOffset_eq {start text : List Mark} (hstart : start <+: text) {d d' : Declaration}
    (hd : d ∈ inScope 0 start) (hd' : d' ∈ inScope 0 start)
    (h : slotOffset text d = slotOffset text d') : d = d' := by
  obtain ⟨j, hj⟩ := List.mem_iff_getElem?.mp hd
  obtain ⟨j', hj'⟩ := List.mem_iff_getElem?.mp hd'
  rw [slotOffset_eq hstart hj, slotOffset_eq hstart hj'] at h
  obtain rfl : j = j' := by omega
  exact Option.some.inj (hj.symm.trans hj')

/-! ### The greatest number of locals -/

/-- The greatest number of locals in scope at once within a text, given how many are before it. -/
def Peak (count : Nat) (text : List Mark) (n : Nat) : Prop :=
  IsGreatest {k | ∃ start, start <+: text ∧ count + (localsAfter start).length = k} n

theorem peak_of_none {count : Nat} {text : List Mark}
    (h : ∀ start, start <+: text → localsAfter start = []) : Peak count text count := by
  refine ⟨⟨[], List.nil_prefix, rfl⟩, ?_⟩
  rintro k ⟨start, hstart, rfl⟩
  rw [h start hstart]
  exact Nat.le_refl _

theorem Peak.append {count n k : Nat} {before after : List Mark} (hbefore : Peak count before n)
    (hkeeps : KeepsOpen after) (hafter : Peak (count + (localsAfter before).length) after k) :
    Peak count (before ++ after) (max n k) := by
  constructor
  · rcases Nat.le_total k n with hle | hle
    · obtain ⟨start, hstart, hn⟩ := hbefore.1
      rw [Nat.max_eq_left hle]
      exact ⟨start, hstart.trans (List.prefix_append before after), hn⟩
    · obtain ⟨start, hstart, hk⟩ := hafter.1
      rw [Nat.max_eq_right hle]
      refine ⟨before ++ start, (List.prefix_append_right_inj before).mpr hstart, ?_⟩
      rw [localsAfter_append (hkeeps.of_prefix hstart), List.length_append, ← Nat.add_assoc, hk]
  · rintro l ⟨start, hstart, rfl⟩
    rcases prefix_append_cases hstart with hstart | ⟨rest, hrest, rfl⟩
    · exact Nat.le_trans (hbefore.2 ⟨start, hstart, rfl⟩) (Nat.le_max_left n k)
    · rw [localsAfter_append (hkeeps.of_prefix hrest), List.length_append, ← Nat.add_assoc]
      exact Nat.le_trans (hafter.2 ⟨rest, hrest, rfl⟩) (Nat.le_max_right n k)

/-- A block has the greatest number of locals somewhere within. -/
theorem Peak.enclosed {count n : Nat} {text : List Mark} (hbalanced : Balanced text)
    (h : Peak count text n) : Peak count (.opens :: (text ++ [.closes])) n := by
  have hopens : ∀ start, start <+: text → localsAfter (.opens :: start) = localsAfter start := by
    intro start hstart
    have hboth : localsAfter ([.opens] ++ start) = localsAfter [.opens] ++ localsAfter start :=
      localsAfter_append (hbalanced.keeps.of_prefix hstart)
    exact hboth
  constructor
  · obtain ⟨start, hstart, hn⟩ := h.1
    refine ⟨.opens :: start, ?_, by rw [hopens start hstart, hn]⟩
    exact (List.prefix_cons_inj _).mpr (hstart.trans (List.prefix_append text _))
  · rintro k ⟨start, hstart, rfl⟩
    have hcount : count ≤ n := h.2 ⟨[], List.nil_prefix, rfl⟩
    rcases List.prefix_cons_iff.mp hstart with rfl | ⟨rest, rfl, hrest⟩
    · exact hcount
    · rcases List.prefix_concat_iff.mp hrest with rfl | hrest
      · rw [localsAfter_enclosed hbalanced]
        exact hcount
      · rw [hopens rest hrest]
        exact h.2 ⟨rest, hrest, rfl⟩

theorem peak_varsText (count : Nat) (vars : List Var) : Peak count (varsText vars) count := by
  refine peak_of_none fun start hstart => ?_
  have hvars : start = varsText (vars.take start.length) := by
    rw [varsText, List.map_take]
    exact List.prefix_iff_eq_take.mp hstart
  rw [hvars, localsAfter_varsText]

/-- Variables that are used before a text count for nothing. -/
theorem Peak.after_vars {count n : Nat} {text : List Mark} (hkeeps : KeepsOpen text)
    (h : Peak count text n) (vars : List Var) : Peak count (varsText vars ++ text) n := by
  have hcount : count ≤ n := h.2 ⟨[], List.nil_prefix, rfl⟩
  have hnone : Peak (count + (localsAfter (varsText vars)).length) text n := by
    rw [localsAfter_varsText]
    exact h
  have hboth := (peak_varsText count vars).append hkeeps hnone
  rw [Nat.max_eq_right hcount] at hboth
  exact hboth

mutual

theorem peak_stmtText : (s : Stmt) → (count : Nat) → Peak count (stmtText s) (stmtPeak count s)
  | .missing, count => peak_varsText count []
  | .block b, count => peak_blockText b count
  | .declare span type name, count => by
      have hone : localsAfter (stmtText (.declare span type name)) = [name] :=
        localsAfter_stmtText _
      refine ⟨⟨_, List.prefix_refl _, by rw [hone]; rfl⟩, ?_⟩
      rintro k ⟨start, hstart, rfl⟩
      rcases List.prefix_cons_iff.mp hstart with rfl | ⟨rest, rfl, hrest⟩
      · exact Nat.le_succ count
      · rw [List.prefix_nil.mp hrest]
        exact Nat.le_of_eq (congrArg (count + List.length ·) hone)
  | .branch _ cond onTrue onFalse, count => by
      have htrue : Peak (count + (localsAfter (blockText onTrue)).length) (blockText onFalse)
          (blockPeak count onFalse) := by
        rw [localsAfter_blockText]
        exact peak_blockText onFalse count
      have hblocks := (peak_blockText onTrue count).append (balanced_blockText onFalse).keeps htrue
      exact hblocks.after_vars
        ((balanced_blockText onTrue).append (balanced_blockText onFalse)).keeps (exprVars cond)
  | .loop _ cond body, count =>
      (peak_blockText body count).after_vars (balanced_blockText body).keeps (exprVars cond)
  | .output _ _, count | .assign _ _ _, count | .assignIndex _ _ _ _, count
  | .call _ _ _ _ _, count => peak_varsText count _

theorem peak_blockText : (b : Block) → (count : Nat) → Peak count (blockText b) (blockPeak count b)
  | .absent, count => peak_varsText count []
  | .mk _ _ body, count => (peak_stmtsText body count).enclosed (balanced_stmtsText body)

theorem peak_stmtsText : (ss : List Stmt) → (count : Nat) →
    Peak count (stmtsText ss) (stmtsPeak count ss)
  | [], count => peak_varsText count []
  | s :: ss, count => by
      refine (peak_stmtText s count).append (balanced_stmtsText ss).keeps ?_
      rw [localsAfter_stmtText]
      exact peak_stmtsText ss (count + (declared s).length)

end

theorem peak_routineText (r : Routine) : Peak 0 (routineText r) (stmtsPeak 0 r.body) := by
  have hle : (localsAfter (stmtsText r.body)).length ≤ stmtsPeak 0 r.body := by
    have hbody := length_bodyLocals_le 0 r.body
    rw [localsAfter_stmtsText]
    omega
  have hboth := (peak_stmtsText r.body 0).append (balanced_varsText _).keeps
    (peak_varsText (0 + (localsAfter (stmtsText r.body)).length)
      (resultVars (r.returns.map (·.result))))
  rw [Nat.zero_add, Nat.max_eq_left hle] at hboth
  exact hboth

/-! ### What a text makes of its uses -/

section View

variable {α : Type} (f : List String → Var → α)

theorem uses_append (before text after : List Mark) :
    uses before (text ++ after) = uses before text ++ uses (before ++ text) after := by
  induction text generalizing before with
  | nil => rw [List.nil_append, List.append_nil, uses, List.nil_append]
  | cons m rest ih =>
      rw [List.cons_append, uses, uses, ih, List.append_assoc, List.append_assoc,
        List.singleton_append]

/-- The locals before a text that keeps blocks open come first in the scope of each use in it. -/
theorem uses_of_keepsOpen {text : List Mark} (h : KeepsOpen text) (before : List Mark) :
    uses before text =
      (uses [] text).map fun u => ⟨localsAfter before ++ u.locals, u.var⟩ := by
  have hfrom : ∀ inner, KeepsOpen (inner ++ text) → uses (before ++ inner) text =
      (uses inner text).map fun u => ⟨localsAfter before ++ u.locals, u.var⟩ := by
    clear h
    induction text with
    | nil => exact fun _ _ => rfl
    | cons m rest ih =>
        intro inner hinner
        have hkeeps : KeepsOpen inner := hinner.of_prefix (List.prefix_append inner (m :: rest))
        have hrest : KeepsOpen ((inner ++ [m]) ++ rest) := by
          rw [List.append_assoc]
          exact hinner
        have htail := ih (inner ++ [m]) hrest
        rw [← List.append_assoc] at htail
        rw [uses, uses, List.map_append, htail, localsAfter_append hkeeps, List.map_map]
        rfl
  have hall := hfrom [] h
  rw [List.append_nil] at hall
  exact hall

/-- What becomes of the uses in a text behind some locals. -/
def view (locals : List String) (text : List Mark) : List α :=
  (uses [] text).map fun u => f (locals ++ u.locals) u.var

theorem view_append (locals : List String) {before after : List Mark} (h : KeepsOpen after) :
    view f locals (before ++ after) =
      view f locals before ++ view f (locals ++ localsAfter before) after := by
  rw [view, uses_append, List.nil_append, uses_of_keepsOpen h, List.map_append, List.map_map]
  simp only [view, Function.comp_def, List.append_assoc]

theorem view_varsText (locals : List String) (vars : List Var) :
    view f locals (varsText vars) = vars.map (f locals) := by
  induction vars with
  | nil => rfl
  | cons v vars ih =>
      have hhead : view f locals [.use v] = [f locals v] := by
        rw [view, uses, uses, List.append_nil]
        show [f (locals ++ []) v] = _
        rw [List.append_nil]
      have hnone : localsAfter [.use v] = [] := localsAfter_varsText [v]
      calc view f locals ([.use v] ++ varsText vars)
          = view f locals [.use v] ++ view f (locals ++ localsAfter [.use v]) (varsText vars) :=
            view_append f locals (balanced_varsText vars).keeps
        _ = f locals v :: vars.map (f locals) := by
            rw [hhead, hnone, List.append_nil, ih]
            rfl

theorem view_enclosed (locals : List String) {text : List Mark} (h : KeepsOpen text) :
    view f locals (.opens :: (text ++ [.closes])) = view f locals text := by
  have hnone : localsAfter [.opens] = [] := rfl
  have hinside : uses [.opens] text = uses [] text := by
    rw [uses_of_keepsOpen h, hnone]
    exact List.map_id' _
  have hclosing : uses ([.opens] ++ text) [.closes] = [] := rfl
  have huses : uses [] (.opens :: (text ++ [.closes])) = uses [] text := by
    show uses [.opens] (text ++ [.closes]) = _
    rw [uses_append, hclosing, List.append_nil, hinside]
  rw [view, huses, view]

end View

end ScopeRule

end ObjectLang
