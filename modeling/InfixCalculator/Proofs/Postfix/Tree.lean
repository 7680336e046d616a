import InfixCalculator.Grammar
import InfixCalculator.Proofs.Postfix.Conversion

/-! Words and trees. The word of a tree, the operands of a node before the node, runs to the value
of the tree on any stack. Conversely a word builds trees as long as no operand is missing, and then
it leaves their values. -/

namespace InfixCalculator
open Instruction (ofToken?)

namespace Tree

/-- The tree in postfix order. -/
def word : Tree → List Instruction
  | numeral n => [.literal n]
  | variableMark => [.variableMark]
  | scaled base negative exponent => base.word ++ [.scaling negative exponent]
  | unary op operand => operand.word ++ [.unary op]
  | binary op left right => left.word ++ right.word ++ [.binary op]

end Tree

namespace Postfix

theorem step_unary_ok {x : Float} {op : PrefixOp} {stack stack' : List Float}
    (h : (Instruction.unary op).step x stack = .ok stack') :
    ∃ r, op.apply (stack.headD Number.nan) = .ok r ∧ stack' = r :: stack.tail := by
  rw [Instruction.step] at h
  cases hr : op.apply (stack.headD Number.nan) with
  | error fault => rw [hr] at h; cases h
  | ok r => rw [hr] at h; cases h; exact ⟨r, rfl, rfl⟩

theorem step_binary_ok {x : Float} {op : BinaryOp} {stack stack' : List Float}
    (h : (Instruction.binary op).step x stack = .ok stack') :
    ∃ r, op.apply (stack.tail.headD Number.nan) (stack.headD Number.nan) = .ok r ∧
      stack' = r :: stack.tail.tail := by
  rw [Instruction.step] at h
  cases hr : op.apply (stack.tail.headD Number.nan) (stack.headD Number.nan) with
  | error fault => rw [hr] at h; cases h
  | ok r => rw [hr] at h; cases h; exact ⟨r, rfl, rfl⟩

end Postfix

/-! ## The trees of a word -/

/-- What one instruction makes of the trees before it, the last first, if it has its operands. -/
def Instruction.build? : Instruction → List Tree → Option (List Tree)
  | literal n, ts => some (.numeral n :: ts)
  | variableMark, ts => some (.variableMark :: ts)
  | scaling negative n, base :: ts => some (.scaled base negative n :: ts)
  | unary op, operand :: ts => some (.unary op operand :: ts)
  | binary op, right :: left :: ts => some (.binary op left right :: ts)
  | scaling _ _, [] | unary _, [] | binary _, [] | binary _, [_] => none

/-- Whether the instruction puts an operand of its own on the stack. -/
def Instruction.isPush : Instruction → Bool
  | literal _ | variableMark => true
  | scaling _ _ | unary _ | binary _ => false

/-- Whether the instruction makes one operand of two. -/
def Instruction.isJoin : Instruction → Bool
  | binary _ => true
  | literal _ | variableMark | scaling _ _ | unary _ => false

namespace Postfix

/-- The trees that a word makes of the trees before it, unless an operand is missing. -/
def build : List Instruction → List Tree → Option (List Tree)
  | [], ts => some ts
  | i :: rest, ts => do build rest (← i.build? ts)

theorem build_cons_some {i : Instruction} {ts ts' : List Tree} (h : i.build? ts = some ts')
    (rest : List Instruction) : build (i :: rest) ts = build rest ts' := by
  rw [build, h]; rfl

theorem build_cons_none {i : Instruction} {ts : List Tree} (h : i.build? ts = none)
    (rest : List Instruction) : build (i :: rest) ts = none := by
  rw [build, h]; rfl

theorem build_append (a b : List Instruction) (ts : List Tree) :
    build (a ++ b) ts = (build a ts).bind (build b) := by
  induction a generalizing ts with
  | nil => rfl
  | cons i rest ih =>
    cases h : i.build? ts with
    | none => rw [List.cons_append, build_cons_none h, build_cons_none h]; rfl
    | some ts' => rw [List.cons_append, build_cons_some h, build_cons_some h, ih]

/-- The first instruction that misses an operand. -/
theorem exists_of_build_eq_none {w : List Instruction} {ts : List Tree} (h : build w ts = none) :
    ∃ before i after ts', w = before ++ i :: after ∧ build before ts = some ts' ∧
      i.build? ts' = none := by
  induction w generalizing ts with
  | nil => cases h
  | cons i rest ih =>
    cases hi : i.build? ts with
    | none => exact ⟨[], i, rest, ts, rfl, rfl, hi⟩
    | some ts' =>
      rw [build_cons_some hi] at h
      obtain ⟨before, j, after, ts'', hw, hb, hj⟩ := ih h
      exact ⟨i :: before, j, after, ts'', by rw [hw]; rfl, by rw [build_cons_some hi, hb], hj⟩

/-- Every operand is pushed once, and every join leaves one less. -/
theorem length_build {w : List Instruction} {ts ts' : List Tree} (h : build w ts = some ts') :
    ts'.length + w.countP Instruction.isJoin = ts.length + w.countP Instruction.isPush := by
  induction w generalizing ts with
  | nil => cases h; rfl
  | cons i rest ih =>
    cases hi : i.build? ts with
    | none => rw [build_cons_none hi] at h; cases h
    | some ts'' =>
      rw [build_cons_some hi] at h
      have hrest := ih h
      have hone : ts''.length + (if i.isJoin then 1 else 0) =
          ts.length + (if i.isPush then 1 else 0) := by
        unfold Instruction.build? at hi
        split at hi <;> cases hi <;> rfl
      simp only [List.countP_cons]
      omega

/-- Whether a stack holds the values of trees, in the same order. -/
def Holds (x : Float) (ts : List Tree) (stack : List Float) : Prop :=
  ts.map (Tree.value x) = stack.map .ok

theorem Holds.length_eq {x : Float} {ts : List Tree} {stack : List Float} (h : Holds x ts stack) :
    stack.length = ts.length := by
  simpa using (congrArg List.length h).symm

theorem Holds.of_cons {x : Float} {t : Tree} {ts : List Tree} {stack : List Float}
    (h : Holds x (t :: ts) stack) :
    ∃ v rest, stack = v :: rest ∧ t.value x = .ok v ∧ Holds x ts rest := by
  cases stack with
  | nil => cases h
  | cons v rest =>
    obtain ⟨hv, hrest⟩ := List.cons.inj h
    exact ⟨v, rest, rfl, hv, hrest⟩

theorem Holds.cons {x v : Float} {t : Tree} {ts : List Tree} {stack : List Float}
    (ht : t.value x = .ok v) (h : Holds x ts stack) : Holds x (t :: ts) (v :: stack) := by
  rw [Holds, List.map_cons, List.map_cons, ht, h]

/-- An instruction that has its operands leaves the values of what it builds. -/
theorem step_of_build {i : Instruction} {x : Float} {ts ts' : List Tree} {stack stack' : List Float}
    (hb : i.build? ts = some ts') (hv : Holds x ts stack) (h : i.step x stack = .ok stack') :
    Holds x ts' stack' := by
  unfold Instruction.build? at hb
  split at hb
  · cases hb; cases h; exact .cons rfl hv
  · cases hb; cases h; exact .cons rfl hv
  · cases hb
    obtain ⟨b, rest, rfl, hbase, hrest⟩ := hv.of_cons
    cases h
    exact .cons (by rw [Tree.value, hbase]; rfl) hrest
  · rename_i op operand ts
    cases hb
    obtain ⟨a, rest, rfl, ha, hrest⟩ := hv.of_cons
    obtain ⟨r, hr, rfl⟩ := step_unary_ok h
    have hnode : (Tree.unary op operand).value x = op.apply a := by
      rw [Tree.value, ha]; rfl
    exact .cons (hnode.trans hr) hrest
  · rename_i op right left ts
    cases hb
    obtain ⟨b, tail, rfl, hright, htail⟩ := hv.of_cons
    obtain ⟨a, rest, rfl, hleft, hrest⟩ := htail.of_cons
    obtain ⟨r, hr, rfl⟩ := step_binary_ok h
    have hnode : (Tree.binary op left right).value x = op.apply a b := by
      rw [Tree.value, hleft, hright]; rfl
    exact .cons (hnode.trans hr) hrest
  all_goals cases hb

/-- A word without a missing operand leaves the values of its trees. -/
theorem run_of_build {w : List Instruction} {x : Float} {ts ts' : List Tree}
    {stack stack' : List Float} (hb : build w ts = some ts') (hv : Holds x ts stack)
    (h : run x w stack = .ok stack') : Holds x ts' stack' := by
  induction w generalizing ts stack with
  | nil => cases hb; cases h; exact hv
  | cons i rest ih =>
    cases hi : i.build? ts with
    | none => rw [build_cons_none hi] at hb; cases hb
    | some ts'' =>
      rw [build_cons_some hi] at hb
      cases hs : i.step x stack with
      | error fault => rw [run_cons_error hs] at h; cases h
      | ok st =>
        rw [run_cons_ok hs] at h
        exact ih hb (step_of_build hi hv hs) h

end Postfix

end InfixCalculator
