import InfixCalculator.Proofs.CommandLine.Answer

/-! What a file keeps of the sampling that it was saved from: every point, bit for bit and in
order. -/

namespace InfixCalculator.CommandLine

variable {s : Settings} {i : Invocation} {arguments : List String} {name : String}
  {xmin xmax : Float} {report : Report}

theorem check_of_answer (h : Request.ofArguments arguments = .ok (.run i))
    (hreport : answer s arguments = .ok report) : s.check = .ok () := by
  rw [answer_eq h, execute, checked] at hreport
  cases hs : s.check with
  | ok _ => rfl
  | error failure =>
    rw [hs] at hreport
    cases hreport

theorem exitCode_of_shown_error {failure : Failure}
    (h : (shown (.error failure)).bind Report.inEmptyDirectory = .ok report) :
    report.exitCode = 1 := by
  rw [shown] at h
  split at h
  · cases h
    rfl
  · cases h

/-- A successful run with bounds and a plain name has sampled an expression. -/
theorem exists_sample_of_answer (h : Request.ofArguments arguments = .ok (.run i))
    (hplot : i.plot? = some (xmin, xmax)) (hpath : i.outputPath? = some name)
    (hname : Destination.IsPlainCsv name) (hreport : answer s arguments = .ok report)
    (hexit : report.exitCode = 0) :
    ∃ e frame, i.expression? = some e ∧
      (Sampling.sample s s.stepFactor e xmin xmax).result #[] = .ok frame ∧
      report.files = [(name, Frame.Csv.text frame)] := by
  have hs := check_of_answer h hreport
  have hne : name ≠ "" := hname.ne_of_not_suffix (by decide)
  rw [answer_eq h, execute_result hs, hplot] at hreport
  cases he : i.expression? with
  | none =>
    rw [plot_of_expression?_eq_none he] at hreport
    have hone := exitCode_of_shown_error hreport
    omega
  | some e =>
    rw [plot_result he hpath hne] at hreport
    cases hsample : (Sampling.sample s s.stepFactor e xmin xmax).result #[] with
    | error failure =>
      rw [hsample] at hreport
      have hone := exitCode_of_shown_error hreport
      omega
    | ok frame =>
      rw [hsample] at hreport
      have hsaved : Report.inEmptyDirectory
          { exitCode := 0, files := [(name, Frame.Csv.text frame)] } = .ok _ :=
        Report.inEmptyDirectory_of_isPlainCsv hname rfl
      obtain rfl := Except.ok.inj (hsaved.symm.trans hreport)
      exact ⟨e, frame, rfl, hsample, rfl⟩

theorem names_of_sample {e : String} {frame : Frame}
    (h : (Sampling.sample s s.stepFactor e xmin xmax).result #[] = .ok frame) :
    frame.xName = s.xColumn ∧ frame.yName = s.yColumn := by
  by_cases hx : Sampling.containsVariable s e = true
  · rw [Sampling.sample_result hx] at h
    cases hxs : (Sampling.points s.stepFactor xmin xmax).result #[] with
    | error failure =>
      rw [hxs] at h
      cases h
    | ok xs =>
      rw [hxs, Except.bind] at h
      cases hys : xs.mapM fun x : Float => (evaluate s e (some x)).result #[] with
      | error failure =>
        rw [hys] at h
        cases h
      | ok ys =>
        rw [hys] at h
        cases h
        exact ⟨rfl, rfl⟩
  · rw [Sampling.sample, if_neg hx] at h
    cases h

/-- The file of a successful run holds the columns of its sampling: they and nothing else are what
its fields stand for, bit for bit and in order. -/
theorem reads_iff_of_answer (h : Request.ofArguments arguments = .ok (.run i))
    (hplot : i.plot? = some (xmin, xmax)) (hpath : i.outputPath? = some name)
    (hname : Destination.IsPlainCsv name) (hx : s.xColumn = "x") (hy : s.yColumn = "y")
    (hreport : answer s arguments = .ok report) (hexit : report.exitCode = 0) :
    ∃ e frame text, i.expression? = some e ∧
      (Sampling.sample s s.stepFactor e xmin xmax).result #[] = .ok frame ∧
      frame.columns = [("x", frame.points.map (·.1)), ("y", frame.points.map (·.2))] ∧
      report.files = [(name, text)] ∧
      (∀ rows, Frame.CsvReader.Reads text rows ↔ rows = frame.points.map fun p => [p.1, p.2]) ∧
      Frame.CsvReader.rows? text = some (frame.points.map fun p => [p.1, p.2]) := by
  obtain ⟨e, frame, he, hsample, hfiles⟩ :=
    exists_sample_of_answer h hplot hpath hname hreport hexit
  obtain ⟨hxName, hyName⟩ := names_of_sample hsample
  rw [hx] at hxName
  rw [hy] at hyName
  have hcolumns : frame.columns =
      [("x", frame.points.map (·.1)), ("y", frame.points.map (·.2))] := by
    simp [Frame.columns, Frame.isMerged, hxName, hyName]
  have hnames : frame.xName ≠ frame.yName := by
    rw [hxName, hyName]
    decide
  have hxLine : '\n' ∉ frame.xName.toList := by
    rw [hxName]
    decide
  have hyLine : '\n' ∉ frame.yName.toList := by
    rw [hyName]
    decide
  exact ⟨e, frame, _, he, hsample, hcolumns, hfiles,
    fun rows => Frame.CsvReader.reads_text_iff hnames hxLine hyLine,
    Frame.CsvReader.rows?_text hnames hxLine hyLine⟩

/-- The sign of a zero is kept. -/
theorem reads_iff_of_negative_zero :
    ({} : Settings).xColumn = "x" ∧ ({} : Settings).yColumn = "y" ∧
      Destination.IsPlainCsv "points.csv" ∧
      answer {} ["--expression=0*(-x)", "--plot", "1", "1.001", "--output_path=points.csv"] =
        .ok { exitCode := 0, files := [("points.csv", "x,y\n1.0,-0.0\n")] } ∧
      ∀ rows, Frame.CsvReader.Reads "x,y\n1.0,-0.0\n" rows ↔ rows = [[1, -0.0]] := by
  have hname : Destination.IsPlainCsv "points.csv" :=
    ⟨by decide, by decide, by decide, by decide, by decide +kernel, by decide +kernel⟩
  let options : List Given :=
    [.expression "0*(-x)", .plot "1" "1.001" 1 1.001, .outputPath "points.csv"]
  have hread : ∀ g ∈ options, g.IsRead := by
    intro g hg
    simp only [options, List.mem_cons, List.not_mem_nil, or_false] at hg
    rcases hg with rfl | rfl | rfl
    · show ("0*(-x)" : String) ≠ "--"
      decide
    · exact ⟨⟨by decide +kernel, by decide +kernel⟩, by decide +kernel, by decide +kernel⟩
    · exact hname.ne_of_not_suffix (by decide)
  have h := Given.ofArguments_flatMap hread ⟨_, List.mem_cons_self, rfl⟩
  have hends : Sampling.Ends 0.001 1 1.001 := .inr ⟨1, by decide +kernel⟩
  obtain ⟨xs, hxs, hpoints, -⟩ := Sampling.exists_points hends
  obtain rfl : [1] = xs := by
    refine (hxs.points (by decide +kernel)).2 _ ⟨by decide +kernel, ?_, ?_, by decide +kernel, ?_⟩
    · rintro _ ⟨⟩
      rfl
    · intro i hi
      simp at hi
    · rintro _ ⟨⟩
      decide +kernel
  have hsample : (Sampling.sample {} 0.001 "0*(-x)" 1 1.001).result #[] =
      .ok { xName := "x", yName := "y", points := [(1, -0.0)] } := by
    have hv : (evaluate {} "0*(-x)" (some 1)).result #[] = .ok (-0.0) := by decide +kernel
    rw [Sampling.sample_result (by decide +kernel), hpoints, Except.bind, List.mapM_cons, hv]
    rfl
  have htext : Frame.Csv.text { xName := "x", yName := "y", points := [(1, -0.0)] } =
      "x,y\n1.0,-0.0\n" := by decide +kernel
  have hanswer := answer_of_sample h rfl rfl rfl hname hsample
  rw [htext] at hanswer
  refine ⟨rfl, rfl, hname, hanswer, ?_⟩
  obtain ⟨e, frame, text, he, hframe, -, hfiles, hreads, -⟩ :=
    reads_iff_of_answer h rfl rfl hname rfl rfl hanswer rfl
  cases he
  obtain rfl := Except.ok.inj (hsample.symm.trans hframe)
  cases hfiles
  exact hreads

end InfixCalculator.CommandLine
