import InfixCalculator.Proofs.Brackets.Stack
import InfixCalculator.Proofs.TwoPhases

/-! The acceptance of an expression and its calculation agree on brackets. What stays open to the
end is dropped and reported, once for each bracket; where all brackets match, none is. -/

namespace InfixCalculator
open Brackets (depth?)
open InfixCalculator.Configuration (Reaches Opened Step initial)

namespace Calculation

/-- The end of a calculation reports the brackets on the stack, all of them unless it fails. -/
theorem finish_log {w : Workspace} (hc : .closeBracket ∉ w.operators) :
    match finish w with
    | .ok _ w' => ∃ warnings, (∀ t, Record.bracketDropped t ∉ warnings) ∧
      w'.log = w.log ++ (List.replicate (w.operators.count .openBracket)
        (Record.bracketDropped .openBracket) ++ warnings).toArray
    | .error _ w' => ∃ n ≤ w.operators.count .openBracket,
      w'.log = w.log ++ (List.replicate n (Record.bracketDropped .openBracket)).toArray := by
  cases h : Postfix.run 0 (w.operators.filterMap Instruction.ofToken?) w.operands with
  | ok stack =>
    rw [finish_ok h, drops_eq_replicate hc]
    refine ⟨countRecords stack, fun t ht => ?_, rfl⟩
    rw [countRecords] at ht
    split at ht <;> simp at ht
  | error fault =>
    obtain ⟨w', done, hdone, hfinish, hlog⟩ := finish_error h
    rw [hfinish]
    have hdc : .closeBracket ∉ done := fun hm => hc (hdone.subset hm)
    exact ⟨_, hdone.sublist.count_le _, by rw [hlog, drops_eq_replicate hdc]⟩

/-- A calculation goes through the loop to the end of the text, or fails without a record. -/
theorem run_outcome (s : Settings) (x? : Option Float) (text : List Char) (log : Log) :
    ∃ c, Reaches s x? (initial text log) c ∧
      ((c.place.ahead = [] ∧ run s x? text { log } = finish c.workspace) ∨
        ∃ f w, run s x? text { log } = .error f w ∧ w.log = log) := by
  obtain ⟨c, hreach, hend⟩ := Configuration.exists_last s x? (initial text log)
  refine ⟨c, hreach, ?_⟩
  -- what is left to do there is all that the run comes to
  have hsame := Configuration.remaining_of_reaches hreach
  obtain ⟨hc, hlog⟩ := Configuration.log_of_reaches hreach
  rcases hend with hahead | ⟨f, w, herr, hw⟩
  · have hok := hsame.trans (Configuration.remaining_of_ahead_eq_nil hahead)
    exact .inl ⟨hahead, bind_ok hok⟩
  · refine .inr ⟨f, w, bind_error (hsame.trans herr), ?_⟩
    rcases hw with rfl | ⟨l, he⟩
    · exact hlog
    · rw [enter_log_of_error hc he, hlog]

end Calculation

variable {s : Settings} {text : List Char} {x? : Option Float} {log : Log} {k : Nat}

theorem Calculation.run_log (hs : s.HasDefaultMarkers) (he : (Reading.ofText s text).IsSpelledOut)
    (hk : depth? 0 text = some k) :
    match run s x? text { log } with
    | .ok _ w => ∃ warnings, (∀ t, Record.bracketDropped t ∉ warnings) ∧
      w.log = log ++ (List.replicate k (Record.bracketDropped .openBracket) ++ warnings).toArray
    | .error _ w => ∃ n ≤ k,
      w.log = log ++ (List.replicate n (Record.bracketDropped .openBracket)).toArray := by
  obtain ⟨c, hreach, ⟨hahead, hrun⟩ | ⟨f, w, hrun, hlog⟩⟩ := run_outcome s x? text log
  · have htext : c.place.passed.reverse = text := by
      simpa [hahead] using Configuration.text_of_reaches hreach
    have hcount := (Configuration.framed_of_reaches hs he hreach (htext ▸ hk)).count
    obtain ⟨hc, hlog⟩ := Configuration.log_of_reaches hreach
    have hfinish := finish_log hc
    rwa [hcount, hlog, ← hrun] at hfinish
  · rw [hrun]
    exact ⟨0, Nat.zero_le k, by simpa using hlog⟩

theorem evaluate_log {e : String} (hs : s.HasDefaultMarkers)
    (he : (Reading.ofText s e.toList).IsSpelledOut) (hk : depth? 0 e.toList = some k) :
    match evaluate s e x? log with
    | .ok _ log' => ∃ warnings, (∀ t, Record.bracketDropped t ∉ warnings) ∧
      log' = log ++ (List.replicate k (Record.bracketDropped .openBracket) ++ warnings).toArray
    | .error _ log' => ∃ n ≤ k,
      log' = log ++ (List.replicate n (Record.bracketDropped .openBracket)).toArray := by
  by_cases hne : e = ""
  · subst hne
    cases hk
    exact ⟨[], fun t => List.not_mem_nil, by simp⟩
  · have hrun := @Calculation.run_log s _ x? log k hs he hk
    rw [evaluate_of_ne hne, Calculation.logged]
    cases h : Calculation.run s x? e.toList { log } with
    | ok v w => rw [h] at hrun; exact hrun
    | error f w => rw [h] at hrun; exact hrun

/-- A closing bracket takes off the opening bracket that is its partner in the text. -/
theorem Configuration.exists_opened {c : Configuration} {rest : List Char} {depth : Nat}
    (hs : s.HasDefaultMarkers) (he : (Reading.ofText s text).IsSpelledOut)
    (hreach : Reaches s x? (initial text log) c)
    (hd : depth? 0 c.place.passed.reverse = some depth) (hpos : 0 < depth)
    (hahead : c.place.ahead = ')' :: rest) :
    ∃ c₀, Reaches s x? (initial text log) c₀ ∧ Opened s x? c₀ c ∧
      ∀ c', Step s x? c c' → c'.workspace.operators = c₀.workspace.operators := by
  cases framed_of_reaches hs he hreach hd with
  | flat _ _ => exact absurd hpos (Nat.lt_irrefl 0)
  | @nested c₀ _ depth houter ho =>
    refine ⟨c₀, houter.reaches, ho, fun c' hstep => ?_⟩
    obtain ⟨above, ha, habove⟩ := ho.innermost
    cases hstep with
    | @intro l w hr henter =>
      have hclose : Lexeme.read s c.operandExpected ⟨c.place.passed, ')' :: rest⟩ =
          .ok (.token .closeBracket c.operandExpected) :=
        Lexeme.read_letters (t := .closeBracket) hs nofun nofun
      rw [← hahead, hr] at hclose
      cases hclose
      rw [(Calculation.enter_operators (log_of_reaches hreach).1 henter).1, habove,
        Postfix.convert_closeBracket ha]

/-- While no bracket closes before it is open, the operator stack holds the open brackets, and a
closing bracket takes off its partner. So where all brackets match, every closing bracket finds an
opening one and none is reported; brackets that stay open to the end are each reported once. -/
theorem brackets_agree {s : Settings} {e : String} (hs : s.HasDefaultMarkers)
    (he : (Reading.ofText s e.toList).IsSpelledOut) (x? : Option Float) (log : Log) :
    (∀ c depth, Reaches s x? (initial e.toList log) c →
      depth? 0 c.place.passed.reverse = some depth →
      c.workspace.operators.count .openBracket = depth ∧
      ∀ rest, c.place.ahead = ')' :: rest → 0 < depth →
        ∃ c₀, Reaches s x? (initial e.toList log) c₀ ∧ Opened s x? c₀ c ∧
          ∀ c', Step s x? c c' → c'.workspace.operators = c₀.workspace.operators) ∧
    (Acceptance.bracketsMatch e →
      (∀ c rest, Reaches s x? (initial e.toList log) c → c.place.ahead = ')' :: rest →
        .openBracket ∈ c.workspace.operators) ∧
      match evaluate s e x? log with
      | .ok _ log' | .error _ log' =>
        ∃ added : List Record, (∀ t, .bracketDropped t ∉ added) ∧
          log' = log ++ added.toArray) ∧
    ∀ k v log', depth? 0 e.toList = some k → evaluate s e x? log = .ok v log' →
      ∃ warnings, (∀ t, Record.bracketDropped t ∉ warnings) ∧
        log' = log ++
          (List.replicate k (Record.bracketDropped .openBracket) ++ warnings).toArray := by
  have hframed c depth (hreach : Reaches s x? (initial e.toList log) c)
      (hd : depth? 0 c.place.passed.reverse = some depth) :=
    Configuration.framed_of_reaches hs he hreach hd
  refine ⟨?_, fun hmatch => ⟨?_, ?_⟩, ?_⟩
  · intro c depth hreach hd
    refine ⟨(hframed c depth hreach hd).count, ?_⟩
    intro rest hahead hpos
    exact Configuration.exists_opened hs he hreach hd hpos hahead
  · intro c rest hreach hahead
    have hk := Brackets.closes_iff.mp hmatch
    rw [← Configuration.text_of_reaches hreach, hahead] at hk
    obtain ⟨depth, hd, hrest⟩ := Brackets.exists_depth hk
    cases depth with
    | zero => cases hrest
    | succ depth =>
      rw [← List.count_pos_iff, (hframed c _ hreach hd).count]
      exact Nat.succ_pos depth
  · have hlog := @evaluate_log s x? log 0 e hs he (Brackets.closes_iff.mp hmatch)
    cases h : evaluate s e x? log with
    | ok v log' => rw [h] at hlog; exact hlog
    | error f log' =>
      rw [h] at hlog
      obtain ⟨n, hn, hlog⟩ := hlog
      rw [Nat.le_zero.mp hn] at hlog
      exact ⟨[], fun t => List.not_mem_nil, hlog⟩
  · intro k v log' hk hok
    have hlog := @evaluate_log s x? log k e hs he hk
    rwa [hok] at hlog

/-- Of two opening brackets only the inner one is closed. -/
theorem bracketDropped_of_unclosed :
    evaluate {} "((x)" (some 2) #[] = .ok 2 #[.bracketDropped .openBracket] ∧
    ∃ warnings : List Record, (∀ t, .bracketDropped t ∉ warnings) ∧
      #[.bracketDropped .openBracket] =
        #[] ++ (List.replicate 1 (Record.bracketDropped .openBracket) ++ warnings).toArray := by
  have hrun : (Reading.ofText {} "((x)".toList).program.run 2 = .ok [2] := rfl
  have hok : evaluate {} "((x)" (some 2) #[] = .ok 2 #[.bracketDropped .openBracket] := by
    rw [evaluate_of_ne (by decide), Calculation.logged, Calculation.run_of_program_ok #[] hrun]
    rfl
  exact ⟨hok, (brackets_agree ⟨rfl, rfl⟩ (by decide) (some 2) #[]).2.2 1 2 _ (by decide) hok⟩

end InfixCalculator
