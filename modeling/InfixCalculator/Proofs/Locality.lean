import InfixCalculator.Proofs.Iteration
import InfixCalculator.Proofs.Lexeme
import InfixCalculator.Proofs.Variable.Independence

/-! How far an evaluation looks. Each piece takes it forward, so it ends; it fails at a fault of the
domain or at a symbol that starts no piece. Such a symbol is found without a look at what stands
further on than one character behind it. -/

namespace InfixCalculator

/-! ## Texts that begin alike -/

theorem getElem?_eq_of_take_eq {text text' : List Char} {n i : Nat} (hi : i < n)
    (ht : text'.take n = text.take n) : text'[i]? = text[i]? := by
  rw [← List.getElem?_take_of_lt hi, ht, List.getElem?_take_of_lt hi]

theorem take_eq_of_le {text text' : List Char} {m n : Nat} (hm : m ≤ n)
    (ht : text'.take n = text.take n) : text'.take m = text.take m := by
  rw [← Nat.min_eq_left hm, ← List.take_take, ht, List.take_take]

theorem take_drop_eq {text text' : List Char} {m n : Nat}
    (ht : text'.take (m + n) = text.take (m + n)) :
    (text'.drop m).take n = (text.drop m).take n := by
  rw [List.take_drop, ht, List.take_drop]

/-- A text that begins like another has its first character, and the one behind it. -/
theorem exists_cons_of_take_eq {c : Char} {rest text' : List Char} {n : Nat} (hn : 1 < n)
    (ht : text'.take n = (c :: rest).take n) :
    ∃ rest', text' = c :: rest' ∧ rest'.head? = rest.head? := by
  have hfirst := getElem?_eq_of_take_eq (Nat.lt_of_succ_lt hn) ht
  have hsecond := getElem?_eq_of_take_eq hn ht
  cases text' with
  | nil => cases hfirst
  | cons d rest' =>
    obtain rfl : d = c := Option.some.inj hfirst
    exact ⟨rest', rfl, by simpa [List.head?_eq_getElem?] using hsecond⟩

/-- A numeral is read alike where the texts are alike up to the character behind it. -/
theorem Numeral.scan_congr {c : Char} {rest text' : List Char} {n : Nat} (hd : c.isDigit)
    (hw : (scan (c :: rest)).width < n) (ht : text'.take n = (c :: rest).take n) :
    scan text' = scan (c :: rest) := by
  obtain ⟨tail, hcs, hends⟩ := exists_scan_append (c :: rest)
  generalize hm : scan (c :: rest) = m at *
  have hfront : text'.take m.width = m.text := by
    rw [take_eq_of_le (Nat.le_of_lt hw) ht, hcs]
    exact List.take_left
  have htail : (text'.drop m.width).head? = tail.head? := by
    rw [List.head?_drop, getElem?_eq_of_take_eq hw ht, hcs, ← List.head?_drop]
    exact congrArg _ List.drop_left
  have hsplit : text' = m.text ++ text'.drop m.width := by
    rw [← hfront, List.take_append_drop]
  rw [hsplit]
  refine scan_append (hm ▸ isLiteral_scan rest hd) ?_
  rwa [EndsBefore, htail]

namespace Lexeme

variable {s : Settings} {operandExpected : Bool} {passed text text' : List Char} {l : Lexeme}

theorem width_readNumeral (s : Settings) (place : Cursor) :
    (readNumeral s place).width = (Numeral.scan place.ahead).width := by
  unfold readNumeral
  split <;> rfl

/-- A piece is read alike where the texts are alike up to the character behind it. -/
theorem read_congr {n : Nat} (h : read s operandExpected ⟨passed, text⟩ = .ok l)
    (hw : l.width < n) (ht : text'.take n = text.take n) :
    read s operandExpected ⟨passed, text'⟩ = .ok l := by
  cases text with
  | nil => cases h
  | cons c rest =>
    have hn : 1 < n := Nat.lt_of_le_of_lt (width_pos_of_read h) hw
    obtain ⟨rest', rfl, hhead⟩ := exists_cons_of_take_eq hn ht
    cases hd : c.isDigit with
    | true =>
      rw [read_of_isDigit hd] at h ⊢
      obtain rfl := Except.ok.inj h
      rw [width_readNumeral] at hw
      rw [readNumeral, readNumeral, Numeral.scan_congr hd hw ht]
    | false => simpa [read, hd, Token.read, hhead, Cursor.index] using h

end Lexeme

namespace Reading

variable {s : Settings} {operandExpected : Bool} {passed text text' : List Char} {c : Char}
  {i width : Nat}

/-- A symbol that is met behind a piece stands behind all characters of the piece. -/
theorem exists_fault_behind
    (h : (ahead s 0 operandExpected ((text.take width).reverse ++ passed)
      (text.drop width)).fault = some (.unknownSymbol c (passed.length + i))) :
    ∃ j, i = width + j ∧ width < text.length ∧
      (ahead s 0 operandExpected ((text.take width).reverse ++ passed) (text.drop width)).fault =
        some (.unknownSymbol c (((text.take width).reverse ++ passed).length + j)) := by
  obtain ⟨d, j, hf, hj, -⟩ := ahead_fault h
  obtain ⟨hin, -⟩ := List.getElem?_eq_some_iff.mp hj
  rw [List.length_drop] at hin
  have hlength : ((text.take width).reverse ++ passed).length = passed.length + width := by
    rw [List.length_append, List.length_reverse, List.length_take]
    omega
  rw [hlength] at hf
  injection hf with hc hi
  exact ⟨j, by omega, by omega, by rw [h, hlength, hi]⟩

/-- A symbol that starts no piece is met alike where the texts are alike up to the character behind
it, and so are all pieces before it. -/
theorem ahead_congr
    (h : (ahead s 0 operandExpected passed text).fault =
      some (.unknownSymbol c (passed.length + i)))
    (ht : text'.take (i + 2) = text.take (i + 2)) :
    (ahead s 0 operandExpected passed text').lexemes =
        (ahead s 0 operandExpected passed text).lexemes ∧
      (ahead s 0 operandExpected passed text').fault =
        (ahead s 0 operandExpected passed text).fault := by
  generalize hn : text.length = n
  induction n using Nat.strongRecOn generalizing operandExpected passed text text' i with
  | ind n ih =>
    cases text with
    | nil => cases h
    | cons d rest =>
      cases hr : Lexeme.read s operandExpected ⟨passed, d :: rest⟩ with
      | error f =>
        obtain ⟨hd, rfl⟩ := Lexeme.read_eq_error_iff.mp hr
        obtain ⟨rest', rfl, hhead⟩ := exists_cons_of_take_eq (by omega) ht
        have hr' : Lexeme.read s operandExpected ⟨passed, d :: rest'⟩ =
            .error (.unknownSymbol d passed.length) :=
          Lexeme.read_eq_error_iff.mpr ⟨hhead ▸ hd, rfl⟩
        rw [ahead_of_error hr, ahead_of_error hr']
        exact ⟨rfl, rfl⟩
      | ok l =>
        rw [ahead_of_read hr] at h ⊢
        obtain ⟨j, rfl, hin, hbehind⟩ := exists_fault_behind h
        have hpos := Lexeme.width_pos_of_read hr
        have hfront : text'.take l.width = (d :: rest).take l.width := take_eq_of_le (by omega) ht
        have hlt : ((d :: rest).drop l.width).length < n := by
          rw [List.length_drop, hn]
          exact Nat.sub_lt (hn ▸ Nat.zero_lt_of_lt hin) hpos
        obtain ⟨hlexemes, hfault⟩ := ih _ hlt hbehind (take_drop_eq ht) rfl
        rw [ahead_of_read (Lexeme.read_congr hr (by omega) ht), Cursor.advance, Cursor.advance,
          hfront]
        exact ⟨congrArg (l :: ·) hlexemes, hfault⟩

theorem ofText_congr (h : (ofText s text).fault = some (.unknownSymbol c i))
    (ht : text'.take (i + 2) = text.take (i + 2)) :
    (ofText s text').lexemes = (ofText s text).lexemes ∧
      (ofText s text').fault = (ofText s text).fault := by
  have hbegin : (ahead s 0 true [] text).fault =
      some (.unknownSymbol c (([] : List Char).length + i)) := by
    rwa [List.length_nil, Nat.zero_add]
  exact ahead_congr hbegin ht

end Reading

/-! ## The end of an evaluation -/

namespace Configuration

variable {s : Settings} {x? : Option Float} {c c' : Configuration}

/-- A step goes forward in the text. -/
theorem Step.index_lt (h : Step s x? c c') : c.place.index < c'.place.index := by
  cases h with
  | @intro l _ hr _ =>
    have hpos := Lexeme.width_pos_of_read hr
    have hne : c.place.ahead ≠ [] := by
      intro hnil
      simp [Lexeme.read, hnil] at hr
    have hlength := List.length_pos_iff.mpr hne
    simp only [Cursor.index, Cursor.advance, List.length_append, List.length_reverse,
      List.length_take]
    omega

theorem index_le_of_reaches {text : List Char} {log : Log} (h : Reaches s x? (initial text log) c) :
    c.place.index ≤ text.length := by
  have hlength := congrArg List.length (text_of_reaches h)
  rw [List.length_append, List.length_reverse] at hlength
  exact hlength ▸ Nat.le_add_right _ _

/-- There are at most as many steps in a row as the text has characters. -/
theorem le_length_of_steps {text : List Char} {log : Log} {run : Nat → Configuration} {n : Nat}
    (hinitial : run 0 = initial text log) (hsteps : ∀ i < n, Step s x? (run i) (run (i + 1))) :
    n ≤ text.length := by
  have hwalk : ∀ i ≤ n, Reaches s x? (initial text log) (run i) ∧ i ≤ (run i).place.index := by
    intro i hi
    induction i with
    | zero => exact ⟨hinitial ▸ .refl, Nat.zero_le _⟩
    | succ i ih =>
      obtain ⟨hreach, hle⟩ := ih (Nat.le_of_succ_le hi)
      have hstep := hsteps i hi
      exact ⟨hreach.tail hstep, Nat.lt_of_le_of_lt hle hstep.index_lt⟩
  obtain ⟨hreach, hle⟩ := hwalk n (Nat.le_refl n)
  exact Nat.le_trans hle (index_le_of_reaches hreach)

end Configuration

/-- An evaluation takes no more steps than its text has characters. It has a value, or it fails at a
fault of the domain or at a symbol of the text; that symbol fails the evaluation of every text that
is the same up to the character behind it. -/
theorem evaluate_looks_one_ahead (s : Settings) (e : String) (x : Float) (log : Log) :
    (∀ (run : Nat → Configuration) n, run 0 = Configuration.initial e.toList log →
      (∀ i < n, Configuration.Step s (some x) (run i) (run (i + 1))) → n ≤ e.length) ∧
    match evaluate s e (some x) log with
    | .ok _ _ => True
    | .error failure log' => (∃ fault, failure = .domain fault) ∨
      ∃ c i, failure = .unknownSymbol c i ∧ e.toList[i]? = some c ∧
        ∀ e' : String, e'.toList.take (i + 2) = e.toList.take (i + 2) →
          evaluate s e' (some x) log = .error failure log' := by
  refine ⟨fun run n hinitial hsteps => ?_, ?_⟩
  · rw [← String.length_toList]
    exact Configuration.le_length_of_steps hinitial hsteps
  · by_cases he : e = ""
    · subst he
      trivial
    · have hcovers := Reading.course_covers (Reading.ofText s e.toList) x log
      rw [evaluate_eq_outcome he]
      cases hout : (Reading.ofText s e.toList).outcome x log with
      | ok v log' => trivial
      | error failure log' =>
        rw [hout] at hcovers
        rcases hcovers with hdomain | ⟨hfault, -⟩
        · exact .inl hdomain
        · have hfault : (Reading.ofText s e.toList).fault = some failure := hfault
          obtain ⟨c, i, rfl, hi, -⟩ := Reading.ofText_fault hfault
          refine .inr ⟨c, i, rfl, hi, fun e' ht => ?_⟩
          obtain ⟨hlexemes, hfault'⟩ := Reading.ofText_congr hfault ht
          have he' : e' ≠ "" := by
            rintro rfl
            rw [← getElem?_eq_of_take_eq (by omega) ht] at hi
            cases hi
          rw [evaluate_eq_outcome he', Reading.outcome, hlexemes, hfault']
          exact hout

end InfixCalculator
