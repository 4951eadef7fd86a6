import Stencil.Proofs.Document.Reporting

/-!
# What a limit of errors does

A parse that stores fewer errors stops earlier. This file compares two runs of one parse, a narrow
one and a wide one with a higher limit:

* the limit is read from the report alone, not from the options (`Parse.Built.eq_of_maxDepth`);
* the runs are abreast (`Findings.Abreast`): they have found the same, until the narrow report is
  full; from then on the wide run may go on where the narrow one stops, and only adds to what both
  have stored. Every parse keeps two runs abreast (`Parse.Built.keeps_abreast`);
* so a limit decides only how many of the errors of a document are stored.
-/

namespace Stencil

/-! ## 1. Findings under two limits -/

namespace Findings

/-- The findings of a narrow and of a wide run. -/
inductive Abreast (narrow wide : Findings) : Prop where
  /-- The narrow report has room, and both have found the same. -/
  | together (hroom : narrow.report.isFull = false)
      (errors : narrow.report.errors = wide.report.errors)
      (totalErrors : narrow.report.totalErrors = wide.report.totalErrors)
      (tooDeep : narrow.tooDeep = wide.tooDeep)
  /-- The narrow report is full; the wide one stores the same and maybe more. -/
  | stopped (hfull : narrow.report.isFull = true)
      (errors : narrow.report.errors <+: wide.report.errors)

variable {narrow wide : Findings} {r r' : Report} {shown : List Diagnostic} {lost : Nat}

/-- Once the narrow report is full, what both runs do next does not matter. -/
theorem Abreast.stays {α β : Type} {readable : String → Prop} (hfull : narrow.report.isFull = true)
    (h : narrow.report.errors <+: wide.report.errors) (hnarrow : narrow.Sound) (hwide : wide.Sound)
    {run : Option α × Findings} {run' : Option β × Findings}
    (hrun : Parse.Accounts readable narrow run) (hrun' : Parse.Accounts readable wide run') :
    run.2.Abreast run'.2 := by
  obtain ⟨_, _, hreceives, -⟩ := hrun.receives
  obtain ⟨_, _, hreceives', -⟩ := hrun'.receives
  refine .stopped (hreceives.isFull hnarrow.bounded hfull) ?_
  rw [hreceives.errors_of_isFull hnarrow.bounded hfull]
  exact h.trans (hreceives'.isPrefix_errors hwide.bounded)

/-- Two runs that are shown the same errors stay abreast. -/
theorem Abreast.receives (h : narrow.Abreast wide) (hnarrow : narrow.Sound) (hwide : wide.Sound)
    (hlimit : narrow.report.limit ≤ wide.report.limit)
    (hr : narrow.report.Receives r shown lost) (hr' : wide.report.Receives r' shown lost)
    {tooDeep tooDeep' : Bool} (hdeep : narrow.tooDeep = wide.tooDeep → tooDeep = tooDeep') :
    Abreast ⟨r, tooDeep⟩ ⟨r', tooDeep'⟩ := by
  cases h with
  | stopped hfull herrors =>
    refine .stopped (hr.isFull hnarrow.bounded hfull) ?_
    show r.errors <+: r'.errors
    rw [hr.errors_of_isFull hnarrow.bounded hfull]
    exact herrors.trans (hr'.isPrefix_errors hwide.bounded)
  | together hroom herrors htotal htooDeep =>
    have hstored : r.errors <+: r'.errors := by
      rw [hr.errors, hr'.errors, herrors]
      exact List.take_prefix_take_left hlimit
    cases hfull : r.isFull with
    | true => exact .stopped hfull hstored
    | false =>
      refine .together hfull (hstored.eq_of_length ?_) ?_ (hdeep htooDeep)
      · have hlt : r.errors.length < r.limit := Nat.lt_of_not_le (of_decide_eq_false hfull)
        rw [hr.limit] at hlt
        have hlength := congrArg List.length hr.errors
        have hlength' := congrArg List.length hr'.errors
        rw [herrors, List.length_take] at hlength
        rw [List.length_take] at hlength'
        show r.errors.length = r'.errors.length
        omega
      · show r.totalErrors = r'.totalErrors
        rw [hr.totalErrors, hr'.totalErrors, htotal]

/-- Where the narrow report has room, both runs have seen the same of the depth. -/
theorem Abreast.tooDeep_eq (h : narrow.Abreast wide) (hroom : narrow.report.isFull = false) :
    narrow.tooDeep = wide.tooDeep := by
  cases h with
  | together _ _ _ htooDeep => exact htooDeep
  | stopped hfull _ => rw [hroom] at hfull; cases hfull

/-- Where the narrow report has room, the wide one has, too. -/
theorem Abreast.isFull_wide (h : narrow.Abreast wide)
    (hlimit : narrow.report.limit ≤ wide.report.limit) (hroom : narrow.report.isFull = false) :
    wide.report.isFull = false := by
  cases h with
  | stopped hfull _ => rw [hroom] at hfull; cases hfull
  | together _ herrors _ _ =>
    have hlt : narrow.report.errors.length < narrow.report.limit :=
      Nat.lt_of_not_le (of_decide_eq_false hroom)
    rw [herrors] at hlt
    exact decide_eq_false (Nat.not_le_of_lt (Nat.lt_of_lt_of_le hlt hlimit))

end Findings

/-! ## 2. Parses under two limits -/

namespace Parse

variable {α : Type} {readable : String → Prop} {p : Parse α}

/-- A parse reads only the limit of depth from the options. -/
theorem Built.eq_of_maxDepth (hp : Built readable p) (options options' : ParseOptions)
    (h : options.maxDepth = options'.maxDepth) : p options = p options' := by
  induction hp with
  | pure a => rfl
  | refuseEach hds => rfl
  | @text s path _ =>
    unfold Parse.text
    cases Template.read s path <;> rfl
  | map f _ ih =>
    funext depth found
    simp only [Parse.map, ih]
  | both _ _ ihp ihq =>
    funext depth found
    simp only [Parse.both, ihp, ihq]
  | @bind α β p f _ _ ihp ihf =>
    funext depth found
    unfold Parse.bind
    rw [ihp]
    rcases p options' depth found with ⟨_ | a, after⟩
    · rfl
    · exact congrFun (congrFun (ihf a) depth) after
  | nested path _ ih =>
    funext depth found
    simp only [Parse.nested, h, ih]

/-- Two runs of a parse: they are abreast, and as long as the narrow report has room, they have
    the same result. -/
structure Follows (narrow wide : Option α × Findings) : Prop where
  abreast : narrow.2.Abreast wide.2
  result : narrow.2.report.isFull = false → narrow.1 = wide.1

variable {narrow wide : Findings}

/-- Runs leave the limits of their reports as they are. -/
theorem Accounts.limit_le {α : Type} {run run' : Option α × Findings}
    (h : Accounts readable narrow run) (h' : Accounts readable wide run')
    (hlimit : narrow.report.limit ≤ wide.report.limit) :
    run.2.report.limit ≤ run'.2.report.limit := by
  rw [h.limit, h'.limit]
  exact hlimit

/-- What comes after a run accounts for what it finds, too. -/
theorem accounts_proceed {α β : Type} {f : α → Parse β} (hf : ∀ a, Built readable (f a))
    (options : ParseOptions) (depth : Nat) {found : Findings} {run : Option α × Findings}
    (h : Accounts readable found run) :
    Accounts readable run.2 (proceed f options depth run) := by
  obtain ⟨_ | a, after⟩ := run
  · exact accounts_silent h.sound (h.refuses rfl)
  · exact (hf a).accounts options depth h.sound

/-- Behind two runs, what follows matters only as long as the narrow report has room. -/
theorem Follows.next {α β : Type} {first first' : Option α × Findings}
    {second second' : Option β × Findings} (h : Follows first first') (hsound : first.2.Sound)
    (hsound' : first'.2.Sound) (haccounts : Accounts readable first.2 second)
    (haccounts' : Accounts readable first'.2 second')
    (hsecond : first.2.report.isFull = false → Follows second second') :
    Follows second second' := by
  cases h.abreast with
  | together hroom _ _ _ => exact hsecond hroom
  | stopped hfull herrors =>
    refine ⟨.stays hfull herrors hsound hsound' haccounts haccounts', fun hroom => ?_⟩
    rw [haccounts.isFull_eq_false hsound hroom] at hfull
    cases hfull

/-- Two runs with the same result are followed by the same parse. -/
theorem Follows.proceed {α β : Type} {f : α → Parse β} {options : ParseOptions} {depth : Nat}
    {first first' : Option α × Findings} (h : Follows first first') (hresult : first.1 = first'.1)
    (hf : ∀ a, Follows (f a options depth first.2) (f a options depth first'.2)) :
    Follows (proceed f options depth first) (proceed f options depth first') := by
  obtain ⟨result, after⟩ := first
  obtain ⟨result', after'⟩ := first'
  obtain rfl : result = result' := hresult
  cases result with
  | none => exact ⟨h.abreast, fun _ => rfl⟩
  | some a => exact hf a

/-- **Every parse keeps a narrow and a wide run abreast.** -/
theorem Built.keeps_abreast (hp : Built readable p) (options : ParseOptions) (depth : Nat)
    (hnarrow : narrow.Sound) (hwide : wide.Sound)
    (hlimit : narrow.report.limit ≤ wide.report.limit) (h : narrow.Abreast wide) :
    Follows (p options depth narrow) (p options depth wide) := by
  induction hp generalizing depth narrow wide with
  | pure a => exact ⟨h, fun _ => rfl⟩
  | @refuseEach α ds hds =>
    exact ⟨h.receives hnarrow hwide hlimit (Report.receives_addErrors hnarrow.bounded ds)
      (Report.receives_addErrors hwide.bounded ds) id, fun _ => rfl⟩
  | @text s path _ =>
    unfold Parse.text
    cases Template.read s path with
    | ok e => exact ⟨h, fun _ => rfl⟩
    | error r =>
      exact ⟨h.receives hnarrow hwide hlimit (Report.receives_merge hnarrow.bounded r)
        (Report.receives_merge hwide.bounded r) id, fun _ => rfl⟩
  | map f _ ih =>
    obtain ⟨habreast, hresult⟩ := ih depth hnarrow hwide hlimit h
    exact ⟨habreast, fun hroom => congrArg (Option.map f) (hresult hroom)⟩
  | both hp hq ihp ihq =>
    have hfirst := ihp depth hnarrow hwide hlimit h
    have haccounts := hp.accounts options depth hnarrow
    have haccounts' := hp.accounts options depth hwide
    have hlimit' := haccounts.limit_le haccounts' hlimit
    have hsecond := ihq depth haccounts.sound haccounts'.sound hlimit' hfirst.abreast
    refine ⟨hsecond.abreast, fun hroom => ?_⟩
    have hbetween := (hq.accounts options depth haccounts.sound).isFull_eq_false
      haccounts.sound hroom
    show Option.bind _ _ = Option.bind _ _
    rw [hfirst.result hbetween, hsecond.result hroom]
  | @bind α β p f hp hf ihp ihf =>
    have hfirst := ihp depth hnarrow hwide hlimit h
    have haccounts := hp.accounts options depth hnarrow
    have haccounts' := hp.accounts options depth hwide
    have hlimit' := haccounts.limit_le haccounts' hlimit
    refine hfirst.next haccounts.sound haccounts'.sound
      (accounts_proceed hf options depth haccounts)
      (accounts_proceed hf options depth haccounts') fun hroom => ?_
    have hresult := hfirst.result hroom
    exact hfirst.proceed hresult fun a =>
      ihf a depth haccounts.sound haccounts'.sound hlimit' hfirst.abreast
  | @nested α p path hp ih =>
    have hstart : Follows (some (), narrow) (some (), wide) := ⟨h, fun _ => rfl⟩
    refine hstart.next hnarrow hwide ((hp.nested path).accounts options depth hnarrow)
      ((hp.nested path).accounts options depth hwide) fun hroom => ?_
    have hwideRoom := h.isFull_wide hlimit hroom
    have hdeep := h.tooDeep_eq hroom
    unfold Parse.nested
    rw [if_neg (Bool.eq_false_iff.mp hroom), if_neg (Bool.eq_false_iff.mp hwideRoom), ← hdeep]
    split
    · split
      · exact ⟨h, fun _ => rfl⟩
      · exact ⟨h.receives hnarrow hwide hlimit (Report.receives_addErrors hnarrow.bounded [_])
          (Report.receives_addErrors hwide.bounded [_]) fun _ => rfl, fun _ => rfl⟩
    · exact ih (depth + 1) hnarrow hwide hlimit h

end Parse

/-! ## 3. Documents under two limits -/

namespace Parsed

/-- The limit zero is the limit one. -/
theorem ofDocument_zero (maxDepth : Nat) (document : Json) :
    ofDocument ⟨0, maxDepth⟩ document = ofDocument ⟨1, maxDepth⟩ document := by
  have hparse := (built_ofJson document).eq_of_maxDepth ⟨0, maxDepth⟩ ⟨1, maxDepth⟩ rfl
  simp only [ofDocument, hparse]
  rfl

variable {m n : Nat}

theorem follows_run (h : m ≤ n) (maxDepth : Nat) (document : Json) :
    Parse.Follows (run ⟨m, maxDepth⟩ document) (run ⟨n, maxDepth⟩ document) := by
  have hparse := (built_ofJson document).eq_of_maxDepth ⟨n, maxDepth⟩ ⟨m, maxDepth⟩ rfl
  have hlimit : (Report.withLimit m).limit ≤ (Report.withLimit n).limit := by
    show max m 1 ≤ max n 1
    omega
  have hroom : (Report.withLimit m).isFull = false :=
    decide_eq_false (Nat.not_le_of_lt (Findings.sound_start m).room)
  unfold run
  rw [hparse]
  exact (built_ofJson document).keeps_abreast ⟨m, maxDepth⟩ 0 (Findings.sound_start m)
    (Findings.sound_start n) hlimit (.together hroom rfl rfl rfl)

/-- **A lower limit stores the first errors** of those that a higher limit stores. -/
theorem errors_eq_take (h : m ≤ n) (maxDepth : Nat) (document : Json) :
    (ofDocument ⟨m, maxDepth⟩ document).report.errors =
      (ofDocument ⟨n, maxDepth⟩ document).report.errors.take (max 1 m) := by
  have hle := length_errors_le ⟨m, maxDepth⟩ document
  cases (follows_run h maxDepth document).abreast with
  | together _ herrors _ _ =>
    rw [report_ofDocument, herrors] at hle
    rw [report_ofDocument, herrors]
    exact (List.take_of_length_le hle).symm
  | stopped hfull hstored =>
    have hlimit : max m 1 ≤ (run ⟨m, maxDepth⟩ document).2.report.errors.length := by
      have hroom : (run ⟨m, maxDepth⟩ document).2.report.limit ≤ _ := of_decide_eq_true hfull
      rwa [(accounts_run ⟨m, maxDepth⟩ document).limit] at hroom
    have hlength : (run ⟨m, maxDepth⟩ document).2.report.errors.length = max 1 m :=
      Nat.le_antisymm hle (Nat.max_comm m 1 ▸ hlimit)
    rw [report_ofDocument, report_ofDocument, ← hlength]
    exact List.prefix_iff_eq_take.mp hstored

/-- **The limit does not decide whether there is an expression**, or which. -/
theorem expr_eq_of_le (h : m ≤ n) (maxDepth : Nat) (document : Json) :
    (ofDocument ⟨m, maxDepth⟩ document).expr = (ofDocument ⟨n, maxDepth⟩ document).expr := by
  have hfollows := follows_run h maxDepth document
  cases hfollows.abreast with
  | together hroom _ _ _ =>
    rw [expr_ofDocument, expr_ofDocument, hfollows.result hroom]
  | stopped hfull hstored =>
    have hsound := (accounts_run ⟨m, maxDepth⟩ document).sound
    have hsound' := (accounts_run ⟨n, maxDepth⟩ document).sound
    have hlimit : (run ⟨m, maxDepth⟩ document).2.report.limit ≤ _ := of_decide_eq_true hfull
    have hcount' : 0 < (ofDocument ⟨n, maxDepth⟩ document).report.totalErrors :=
      calc
        0 < (run ⟨m, maxDepth⟩ document).2.report.limit := hsound.room
        _ ≤ (run ⟨m, maxDepth⟩ document).2.report.errors.length := hlimit
        _ ≤ (run ⟨n, maxDepth⟩ document).2.report.errors.length := hstored.length_le
        _ ≤ (run ⟨n, maxDepth⟩ document).2.report.totalErrors := hsound'.counted
    have hcount := hsound.totalErrors_of_isFull hfull
    rw [(expr_eq_none_iff _ document).mpr hcount, (expr_eq_none_iff _ document).mpr hcount']

/-- **The limit of errors changes only how many errors are kept.** Of what is stored under a limit,
    a lower limit stores the first; the parse succeeds under both or under neither, with the same
    expression; and the limit zero is the limit one. -/
theorem errors_take (h : m ≤ n) (maxDepth : Nat) (document : Json) :
    let narrow := ofDocument ⟨m, maxDepth⟩ document
    let wide := ofDocument ⟨n, maxDepth⟩ document
    narrow.report.errors = wide.report.errors.take (max 1 m) ∧ narrow.expr = wide.expr ∧
      (∀ e, narrow.toExcept = .ok e ↔ wide.toExcept = .ok e) ∧
        ofDocument ⟨0, maxDepth⟩ document = ofDocument ⟨1, maxDepth⟩ document := by
  intro narrow wide
  have hexpr : narrow.expr = wide.expr := expr_eq_of_le h maxDepth document
  refine ⟨errors_eq_take h maxDepth document, hexpr, fun e => ?_, ofDocument_zero maxDepth document⟩
  rw [toExcept_eq_ok_iff, toExcept_eq_ok_iff, expr_eq_of_le h]

/-- Three texts that cannot be read, under the limits one and two. -/
theorem errors_take_three_texts :
    let document : Json := .array [.text "$\x7b\x7d", .object [("@bogus", .null)], .text "$\x7b"]
    let narrow := ofDocument ⟨1, 64⟩ document
    let wide := ofDocument ⟨2, 64⟩ document
    1 ≤ 2 ∧ narrow.report.errors = wide.report.errors.take (max 1 1) ∧ narrow.expr = wide.expr ∧
      (∀ e, narrow.toExcept = .ok e ↔ wide.toExcept = .ok e) ∧
        ofDocument ⟨0, 64⟩ document = ofDocument ⟨1, 64⟩ document := by
  intro document narrow wide
  have hle : 1 ≤ 2 := by decide
  exact ⟨hle, errors_take hle 64 document⟩

end Parsed

end Stencil
