import InfixCalculator.Proofs.Outcome
import InfixCalculator.Proofs.Postfix.Tree
import InfixCalculator.Proofs.Sampling.Loop

/-! The value of the variable never steers a calculation. The pieces of an expression are read and
put in order without it, and every instruction leaves a stack whose height tells nothing of the
values. So all values of the variable lead to the same records and to the same unreadable symbol,
unless a fault of the domain comes first. -/

namespace InfixCalculator
open Calculation (ending drops countRecords)
open Instruction (ofToken?)
open Postfix (convert)

/-! ## Heights -/

/-- How high an instruction leaves a stack of the given height. What is missing is made up for. -/
def Instruction.height : Instruction → Nat → Nat
  | literal _, n | variableMark, n => n + 1
  | scaling _ _, n | unary _, n => n - 1 + 1
  | binary _, n => n - 2 + 1

theorem Instruction.length_of_step {i : Instruction} {x : Float} {stack stack' : List Float}
    (h : i.step x stack = .ok stack') : stack'.length = i.height stack.length := by
  cases i with
  | literal n | variableMark => cases h; rfl
  | scaling negative n =>
    cases h
    simp [height]
  | unary op =>
    obtain ⟨r, -, rfl⟩ := Postfix.step_unary_ok h
    simp [height]
  | binary op =>
    obtain ⟨r, -, rfl⟩ := Postfix.step_binary_ok h
    simp [height, Nat.sub_sub]

namespace Postfix

/-- How high a word leaves a stack of the given height. -/
def height : List Instruction → Nat → Nat
  | [], n => n
  | i :: rest, n => height rest (i.height n)

theorem length_of_run {x : Float} {w : List Instruction} {stack stack' : List Float}
    (h : run x w stack = .ok stack') : stack'.length = height w stack.length := by
  induction w generalizing stack with
  | nil => cases h; rfl
  | cons i rest ih =>
    cases hi : i.step x stack with
    | error fault => rw [run_cons_error hi] at h; cases h
    | ok st =>
      rw [run_cons_ok hi] at h
      rw [ih h, Instruction.length_of_step hi, height]

end Postfix

/-! ## Courses -/

/-- What is told of a calculation without the value of the variable: the fault that ends the
reading, if there is one, and the records of a calculation that comes to its end. -/
structure Course where
  fault : Option Failure
  /-- How many opening brackets are dropped at the end. -/
  dropped : Nat
  /-- How many operands are left at the end. -/
  left : Nat

namespace Course

def records (c : Course) : List Record :=
  List.replicate c.dropped (.bracketDropped .openBracket) ++
    if c.left = 1 then [] else [.operandCount c.left]

/-- Whether a calculation with the given records before it keeps to the course. A fault of the
domain may end it early. -/
def Covers (c : Course) (log : Log) : EStateM.Result Failure Log Float → Prop
  | .ok _ log' => c.fault = none ∧ log' = log ++ c.records.toArray
  | .error failure log' => (∃ fault, failure = .domain fault) ∨ c.fault = some failure ∧ log' = log

end Course

namespace Reading

def course (r : Reading) : Course where
  fault := r.fault
  dropped := (convert [] r.lexemes).2.count .openBracket
  left := Postfix.height (Postfix.word r.lexemes) 0

/-- The pieces set the course for all values of the variable. -/
theorem course_covers (r : Reading) (x : Float) (log : Log) :
    r.course.Covers log (r.outcome x log) := by
  rw [outcome]
  cases hrun : Postfix.run x (convert [] r.lexemes).1 [] with
  | error fault => exact .inl ⟨fault, rfl⟩
  | ok operands =>
    cases hf : r.fault with
    | some failure => exact .inr ⟨hf, rfl⟩
    | none =>
      show r.course.Covers log (ending operands _ log)
      cases hend : Postfix.run x ((convert [] r.lexemes).2.filterMap ofToken?) operands with
      | error fault =>
        obtain ⟨done, -, he⟩ := Calculation.ending_error log hend
        rw [he]
        exact .inl ⟨fault, rfl⟩
      | ok stack =>
        rw [Calculation.ending_ok log hend]
        refine ⟨hf, ?_⟩
        have hword : Postfix.run x (Postfix.word r.lexemes) [] = .ok stack :=
          (Postfix.run_append_ok hrun _).trans hend
        have hlen : stack.length = r.course.left := Postfix.length_of_run hword
        have hc := Postfix.not_mem_convert_closeBracket List.not_mem_nil r.lexemes
        rw [Calculation.drops_eq_replicate hc, countRecords, hlen]
        rfl

end Reading

/-- Every expression has a course. -/
theorem exists_course (s : Settings) (e : String) :
    ∃ c : Course, ∀ x log, c.Covers log (evaluate s e (some x) log) := by
  by_cases he : e = ""
  · refine ⟨⟨none, 0, 1⟩, fun x log => ?_⟩
    subst he
    exact ⟨rfl, by simp [Course.records]⟩
  · refine ⟨(Reading.ofText s e.toList).course, fun x log => ?_⟩
    rw [evaluate_eq_outcome he]
    exact Reading.course_covers _ x log

/-! ## Sample points -/

theorem Logged.exists_of_bind_ok {α β : Type} {c : Logged α} {f : α → Logged β} {b : β}
    {log log' : Log} (h : (c >>= f) log = .ok b log') :
    ∃ a l, c log = .ok a l ∧ f a l = .ok b log' := by
  simp only [bind, EStateM.bind] at h
  cases hc : c log with
  | ok a l => rw [hc] at h; exact ⟨a, l, rfl, h⟩
  | error failure l => rw [hc] at h; cases h

/-- Calculations that all make the same records make them once for each point. -/
theorem mapM_log {act : Float → Logged Float} {records : List Record}
    (hact : ∀ x log v log', act x log = .ok v log' → log' = log ++ records.toArray)
    {xs ys : List Float} {log log' : Log} (h : xs.mapM act log = .ok ys log') :
    ys.length = xs.length ∧
      log' = log ++ (List.replicate xs.length records).flatten.toArray := by
  induction xs generalizing ys log with
  | nil =>
    cases h
    simp
  | cons x rest ih =>
    rw [List.mapM_cons] at h
    obtain ⟨v, l, hx, h⟩ := Logged.exists_of_bind_ok h
    obtain ⟨vs, l', hrest, h⟩ := Logged.exists_of_bind_ok h
    cases h
    obtain ⟨hlen, hlog⟩ := ih hrest
    refine ⟨by simp [hlen], ?_⟩
    rw [hlog, hact x log v l hx]
    simp [List.replicate_succ]

/-- What a plot that succeeds has done. -/
theorem Sampling.exists_of_plot_ok {s : Settings} {factor xmin xmax : Float} {e : String}
    {frame : Frame} {log log' : Log} (h : plot s factor e xmin xmax log = .ok frame log') :
    ∃ xs ys log₀ log₁, points factor xmin xmax log = .ok xs log₀ ∧
      xs.mapM (fun x => evaluate s e (some x)) log₀ = .ok ys log₁ ∧
      frame.points = xs.zip ys ∧ log' = log₁.push (.framePlotted e frame.size) := by
  obtain ⟨frame', l, hsample, h⟩ := Logged.exists_of_bind_ok h
  cases h
  rw [sample] at hsample
  split at hsample
  · obtain ⟨xs, log₀, hpoints, hsample⟩ := Logged.exists_of_bind_ok hsample
    obtain ⟨ys, log₁, hvalues, hsample⟩ := Logged.exists_of_bind_ok hsample
    cases hsample
    exact ⟨xs, ys, log₀, _, hpoints, hvalues, rfl, rfl⟩
  · cases hsample

/-- Whatever the value of the variable, an evaluation comes to its end with the same records, or
stops at the same unreadable symbol, unless a fault of the domain ends it earlier. So a plot has the
same records at each of its points. -/
theorem evaluate_keeps_course (s : Settings) (e : String) (x₁ x₂ : Float) (log : Log) :
    (∀ v₁ log₁, evaluate s e (some x₁) log = .ok v₁ log₁ →
      (∃ v₂, evaluate s e (some x₂) log = .ok v₂ log₁) ∨
        ∃ fault log₂, evaluate s e (some x₂) log = .error (.domain fault) log₂) ∧
    (∀ c i log₁, evaluate s e (some x₁) log = .error (.unknownSymbol c i) log₁ →
      evaluate s e (some x₂) log = .error (.unknownSymbol c i) log₁ ∨
        ∃ fault log₂, evaluate s e (some x₂) log = .error (.domain fault) log₂) ∧
    ∀ factor xmin xmax frame log', Sampling.plot s factor e xmin xmax log = .ok frame log' →
      ∃ dropped left log₀,
        Sampling.points factor xmin xmax log = .ok (frame.points.map Prod.fst) log₀ ∧
        log' = log₀ ++ ((List.replicate frame.size
          (List.replicate dropped (Record.bracketDropped .openBracket) ++
            if left = 1 then [] else [Record.operandCount left])).flatten ++
          [Record.framePlotted e frame.size]).toArray := by
  obtain ⟨c, hc⟩ := exists_course s e
  have h₁ := hc x₁ log
  have h₂ := hc x₂ log
  refine ⟨?_, ?_, ?_⟩
  · intro v₁ log₁ hv
    rw [hv] at h₁
    obtain ⟨hnone, hlog⟩ := h₁
    cases hr : evaluate s e (some x₂) log with
    | ok v₂ log₂ =>
      rw [hr] at h₂
      exact .inl ⟨v₂, by rw [hlog, h₂.2]⟩
    | error failure log₂ =>
      rw [hr] at h₂
      rcases h₂ with ⟨fault, rfl⟩ | ⟨hsome, -⟩
      · exact .inr ⟨fault, log₂, rfl⟩
      · rw [hnone] at hsome; cases hsome
  · intro symbol i log₁ hu
    rw [hu] at h₁
    rcases h₁ with ⟨fault, hd⟩ | ⟨hsome, hlog⟩
    · cases hd
    · cases hr : evaluate s e (some x₂) log with
      | ok v₂ log₂ =>
        rw [hr] at h₂
        rw [h₂.1] at hsome
        cases hsome
      | error failure log₂ =>
        rw [hr] at h₂
        rcases h₂ with ⟨fault, rfl⟩ | ⟨hsome', hlog'⟩
        · exact .inr ⟨fault, log₂, rfl⟩
        · rw [hsome] at hsome'
          cases hsome'
          exact .inl (by rw [hlog, hlog'])
  · intro factor xmin xmax frame log' hp
    obtain ⟨xs, ys, log₀, log₁, hpoints, hvalues, hframe, rfl⟩ := Sampling.exists_of_plot_ok hp
    have hact : ∀ (x : Float) (l : Log) (v : Float) (l' : Log),
        evaluate s e (some x) l = .ok v l' → l' = l ++ c.records.toArray := by
      intro x l v l' hv
      have hcov := hc x l
      rw [hv] at hcov
      exact hcov.2
    obtain ⟨hlen, hlog⟩ := mapM_log hact hvalues
    refine ⟨c.dropped, c.left, log₀, ?_, ?_⟩
    · rw [hpoints, hframe, List.map_fst_zip (Nat.le_of_eq hlen.symm)]
    · have hsize : frame.size = xs.length := by simp [Frame.size, hframe, hlen]
      rw [hlog, hsize]
      simp [Course.records]

/-! ## Two operands at each point -/

theorem evaluate_two_operands (x : Float) (log : Log) :
    evaluate {} "xx" (some x) log = .ok x (log.push (.operandCount 2)) := by
  rw [evaluate_eq_outcome (by decide)]
  rfl

theorem evaluate_stray_symbol (x : Float) (log : Log) :
    evaluate {} "x@" (some x) log = .error (.unknownSymbol '@' 1) log := by
  rw [evaluate_eq_outcome (by decide)]
  rfl

theorem Sampling.points_halves :
    points 0.5 0 1 #[] = .ok [0, 0 + 0.5] #[.pointsListed 2 0 1] := by
  have hstep : step 0.5 0 1 = 0.5 := by decide +kernel
  have hguard : ((0.5 : Float) == 0 || !(0.5 : Float).isFinite) = false := by decide +kernel
  have hvisit : visit (fun x => (pure x : Logged Float)) 0.5 1 0 [] = pure [0, 0 + 0.5] := by
    rw [visit_of_lt (by decide +kernel) (by decide +kernel), pure_bind,
      visit_of_lt (by decide +kernel) (by decide +kernel), pure_bind,
      visit_of_not_lt (by decide +kernel)]
    rfl
  rw [points, visitAll, hstep]
  simp only [hguard, Bool.false_eq_true, if_false]
  show (visit (fun x => (pure x : Logged Float)) 0.5 1 0 [] >>= _) #[] = _
  rw [hvisit]
  rfl

theorem Sampling.plot_halves :
    plot {} 0.5 "xx" 0 1 #[] =
      .ok { xName := "x", yName := "y", points := [(0, 0), (0 + 0.5, 0 + 0.5)] }
        #[.pointsListed 2 0 1, .operandCount 2, .operandCount 2, .framePlotted "xx" 2] := by
  have hx : containsVariable {} "xx" := by decide +kernel
  rw [plot, sample, if_pos hx]
  simp only [bind, EStateM.bind, points_halves, List.mapM_cons, evaluate_two_operands,
    List.mapM_nil, pure, EStateM.pure]
  rfl

/-- Two variables without an operator leave two operands whatever their value, also at both points
of a plot, and a symbol that cannot be read stays where it is. -/
theorem evaluate_keeps_course_two_operands :
    (evaluate {} "xx" (some 1) #[] = .ok 1 #[.operandCount 2] ∧
      ((∃ v₂, evaluate {} "xx" (some 3) #[] = .ok v₂ #[.operandCount 2]) ∨
        ∃ fault log₂, evaluate {} "xx" (some 3) #[] = .error (.domain fault) log₂)) ∧
    (evaluate {} "x@" (some 1) #[] = .error (.unknownSymbol '@' 1) #[] ∧
      (evaluate {} "x@" (some 3) #[] = .error (.unknownSymbol '@' 1) #[] ∨
        ∃ fault log₂, evaluate {} "x@" (some 3) #[] = .error (.domain fault) log₂)) ∧
    ∃ dropped left log₀, Sampling.points 0.5 0 1 #[] = .ok [0, 0 + 0.5] log₀ ∧
      #[Record.pointsListed 2 0 1, .operandCount 2, .operandCount 2, .framePlotted "xx" 2] =
        log₀ ++ ((List.replicate 2 (List.replicate dropped (Record.bracketDropped .openBracket) ++
          if left = 1 then [] else [Record.operandCount left])).flatten ++
            [Record.framePlotted "xx" 2]).toArray := by
  obtain ⟨hok, -, hplot⟩ := evaluate_keeps_course {} "xx" 1 3 #[]
  obtain ⟨-, hstray, -⟩ := evaluate_keeps_course {} "x@" 1 3 #[]
  have hxx := evaluate_two_operands 1 #[]
  have hx := evaluate_stray_symbol 1 #[]
  exact ⟨⟨hxx, hok _ _ hxx⟩, ⟨hx, hstray _ _ _ hx⟩, hplot _ _ _ _ _ Sampling.plot_halves⟩

end InfixCalculator
