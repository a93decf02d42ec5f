import OoreBuild.TestEvents

/-!
# JUnit documents

The parser keeps one open test case, so a test case that is opened inside another one takes its
place, and the outer one is lost (`counted_eq_iff`). The completed `testcase` elements and the cases
that the parser finishes are both counted over the tags of the document.
-/

namespace OoreBuild

namespace Reports

open Text

/-! ## The tags of test cases -/

/-- A tag of a `testcase` element. -/
inductive CaseTag where
  | opened
  | empty
  | closed

/-- The element whose start tag is read after a token. -/
def nextElement (element : Text) : XmlToken → Text
  | .elementStart name => name
  | _ => element

/-- The tag of a test case that a token ends. -/
def tagOf (element : Text) : XmlToken → Option CaseTag
  | .endOpen => if element = "testcase" then some .opened else none
  | .endEmpty => if element = "testcase" then some .empty else none
  | .endClose name => if name = "testcase" then some .closed else none
  | _ => none

def caseTags (element : Text) : List XmlToken → List CaseTag
  | [] => []
  | token :: rest => (tagOf element token).toList ++ caseTags (nextElement element token) rest

/-- The `testcase` elements that are completed, with the number of those that are open. -/
def completedFrom : ℕ → List CaseTag → ℕ
  | _, [] => 0
  | depth, .opened :: rest => completedFrom (depth + 1) rest
  | depth, .empty :: rest => completedFrom depth rest + 1
  | 0, .closed :: rest => completedFrom 0 rest
  | depth + 1, .closed :: rest => completedFrom depth rest + 1

/-- The cases that the parser finishes, which holds one open case at most. -/
def countedFrom : Bool → List CaseTag → ℕ
  | _, [] => 0
  | _, .opened :: rest => countedFrom true rest
  | isOpen, .empty :: rest => countedFrom isOpen rest + 1
  | isOpen, .closed :: rest => countedFrom false rest + isOpen.toNat

/-- The open elements, the last one first, each with whether a test case was opened in it. No
element that holds an opened test case is closed. -/
def flatFrom : List Bool → List CaseTag → Bool
  | _, [] => true
  | [], .opened :: rest => flatFrom [false] rest
  | _ :: outer, .opened :: rest => flatFrom (false :: true :: outer) rest
  | opens, .empty :: rest => flatFrom opens rest
  | [], .closed :: rest => flatFrom [] rest
  | holds :: outer, .closed :: rest => !holds && flatFrom outer rest

/-- The parser misses the completed elements that hold an opened test case, and no others. -/
theorem counted_eq_iff (tags : List CaseTag) (opens : List Bool) (houter : ∀ holds ∈ opens.tail,
    holds = true) : countedFrom (opens.head? == some false) tags ≤ completedFrom opens.length tags ∧
      (countedFrom (opens.head? == some false) tags = completedFrom opens.length tags ↔
        flatFrom opens tags = true) := by
  induction tags generalizing opens with
  | nil =>
    unfold countedFrom completedFrom
    cases opens <;> exact ⟨le_rfl, iff_of_true rfl (by unfold flatFrom; rfl)⟩
  | cons tag rest ih =>
    cases tag with
    | opened =>
      cases opens with
      | nil => exact ih [false] fun _ h => by cases h
      | cons holds outer =>
        refine ih (false :: true :: outer) fun other hother => ?_
        rcases List.mem_cons.mp hother with rfl | hother
        · rfl
        · exact houter other hother
    | empty =>
      obtain ⟨hle, hiff⟩ := ih opens houter
      have hflat : flatFrom opens (.empty :: rest) = flatFrom opens rest := by
        cases opens <;> rfl
      have hcompleted : completedFrom opens.length (.empty :: rest) =
          completedFrom opens.length rest + 1 := by
        cases opens <;> rfl
      have hcounted : countedFrom (opens.head? == some false) (.empty :: rest) =
          countedFrom (opens.head? == some false) rest + 1 := rfl
      rw [hflat, ← hiff, hcompleted, hcounted]
      omega
    | closed =>
      cases opens with
      | nil => exact ih [] houter
      | cons holds outer =>
        obtain ⟨hle, hiff⟩ := ih outer fun other hother =>
          houter other (List.mem_of_mem_tail hother)
        -- the element around a closed one holds a test case
        have hhead : (outer.head? == some false) = false := by
          cases outer with
          | nil => rfl
          | cons first others =>
            rw [houter first List.mem_cons_self]
            rfl
        rw [hhead] at hle hiff
        show countedFrom false rest + ((some holds == some false) : Bool).toNat ≤
            completedFrom outer.length rest + 1 ∧
          (countedFrom false rest + ((some holds == some false) : Bool).toNat =
            completedFrom outer.length rest + 1 ↔ (!holds && flatFrom outer rest) = true)
        cases holds with
        | false =>
          rw [Bool.not_false, Bool.true_and, ← hiff]
          show countedFrom false rest + 1 ≤ _ ∧ (countedFrom false rest + 1 = _ ↔ _)
          omega
        | true =>
          rw [Bool.not_true, Bool.false_and]
          show countedFrom false rest + 0 ≤ _ ∧ (countedFrom false rest + 0 = _ ↔ _)
          refine ⟨by omega, iff_of_false (by omega) Bool.false_ne_true⟩

/-! ## The cases that the parser finishes -/

/-- The test case that a token finishes. -/
def JunitStream.finishes (parsers : ReportParsers) (s : JunitStream) (token : XmlToken) :
    Option JunitCase :=
  match tagOf s.element token with
  | some .empty => some (s.newCase parsers)
  | some .closed => s.case
  | _ => none

/-- The test cases that the tokens finish, in order. -/
def JunitStream.finished (parsers : ReportParsers) (s : JunitStream) : List XmlToken →
    List JunitCase
  | [] => []
  | token :: rest => match s.token parsers token with
    | none => []
    | some next => (s.finishes parsers token).toList ++ next.finished parsers rest

/-- What a token does to the parser's report and its open case. -/
structure JunitStream.Follows (parsers : ReportParsers) (s : JunitStream) (token : XmlToken)
    (next : JunitStream) : Prop where
  element : next.element = nextElement s.element token
  report : next.report = (s.finishes parsers token).elim s.report s.report.finish
  open_case : next.case.isSome = match tagOf s.element token with
    | some .opened => true
    | some .closed => false
    | _ => s.case.isSome
  root : next.sawTestcaseRoot = true ∨
    next.sawTestcaseRoot = s.sawTestcaseRoot ∧ ∀ tag ∈ tagOf s.element token, tag = .closed

namespace JunitStream

variable {parsers : ReportParsers} {s next : JunitStream} {token : XmlToken}

/-- A token that is no tag of a test case keeps the report and the open case. -/
theorem Follows.of_same (htag : tagOf s.element token = none)
    (helement : next.element = nextElement s.element token) (hreport : next.report = s.report)
    (hcase : next.case.isSome = s.case.isSome)
    (hroot : next.sawTestcaseRoot = true ∨ next.sawTestcaseRoot = s.sawTestcaseRoot) :
    s.Follows parsers token next := by
  refine ⟨helement, ?_, ?_, hroot.imp_right fun h => ⟨h, ?_⟩⟩
  · rw [hreport, finishes, htag]
    rfl
  · rw [htag, hcase]
  · rw [htag]
    exact fun _ h => by cases h

/-- The end of another start tag keeps the report and whether a case is open. -/
theorem opened_other (parsers : ReportParsers) (s : JunitStream) (empty : Bool) (h : s.element ≠ "testcase") :
    (s.opened parsers empty).element = s.element ∧ (s.opened parsers empty).report = s.report ∧
      (s.opened parsers empty).case.isSome = s.case.isSome ∧
      ((s.opened parsers empty).sawTestcaseRoot = true ∨
        (s.opened parsers empty).sawTestcaseRoot = s.sawTestcaseRoot) := by
  unfold opened
  rw [if_neg h]
  split_ifs
  · exact ⟨rfl, rfl, rfl, Or.inl rfl⟩
  · exact ⟨rfl, rfl, rfl, Or.inl rfl⟩
  · exact ⟨rfl, rfl, rfl, Or.inl rfl⟩
  · cases hopen : s.case with
    | none => exact ⟨rfl, rfl, congrArg Option.isSome hopen, Or.inr rfl⟩
    | some case => exact ⟨rfl, rfl, rfl, Or.inr rfl⟩
  · exact ⟨rfl, rfl, Option.isSome_map, Or.inr rfl⟩
  · exact ⟨rfl, rfl, rfl, Or.inr rfl⟩

theorem follows_endEmpty (s : JunitStream) :
    s.Follows parsers .endEmpty (s.opened parsers true) := by
  by_cases hcase : s.element = "testcase"
  · have htag : tagOf s.element .endEmpty = some .empty := if_pos hcase
    have hopened : s.opened parsers true =
        { s with sawTestcaseRoot := true, report := s.report.finish (s.newCase parsers) } := by
      unfold opened
      rw [hcase, if_neg (by decide), if_neg (by decide), if_pos rfl, if_pos rfl]
      rfl
    rw [hopened]
    refine ⟨rfl, ?_, ?_, Or.inl rfl⟩
    · rw [finishes, htag]
      rfl
    · rw [htag]
  · obtain ⟨helement, hreport, hopen, hroot⟩ := opened_other parsers s true hcase
    exact Follows.of_same (if_neg hcase) helement hreport hopen hroot

theorem follows_endOpen (s : JunitStream) :
    s.Follows parsers .endOpen (s.opened parsers false) := by
  by_cases hcase : s.element = "testcase"
  · have htag : tagOf s.element .endOpen = some .opened := if_pos hcase
    have hopened : s.opened parsers false =
        { s with sawTestcaseRoot := true, case := some (s.newCase parsers) } := by
      unfold opened
      rw [hcase, if_neg (by decide), if_neg (by decide), if_pos rfl, if_neg (by decide)]
      rfl
    rw [hopened]
    refine ⟨rfl, ?_, ?_, Or.inl rfl⟩
    · rw [finishes, htag]
      rfl
    · rw [htag]
      rfl
  · obtain ⟨helement, hreport, hopen, hroot⟩ := opened_other parsers s false hcase
    exact Follows.of_same (if_neg hcase) helement hreport hopen hroot

theorem follows_endClose (s : JunitStream) (name : Text) :
    s.Follows parsers (.endClose name) (s.closed name) := by
  by_cases hcase : name = "testcase"
  · have htag : tagOf s.element (.endClose name) = some .closed := if_pos hcase
    have hne : name ≠ "testsuite" := by
      rw [hcase]
      decide
    unfold closed
    rw [if_neg hne, if_pos hcase]
    cases hopen : s.case with
    | none =>
      refine ⟨rfl, ?_, ?_, Or.inr ⟨rfl, ?_⟩⟩
      · rw [finishes, htag, hopen]
        rfl
      · rw [htag, hopen]
        rfl
      · rw [htag]
        rintro tag ⟨⟩
        rfl
    | some case =>
      refine ⟨rfl, ?_, ?_, Or.inr ⟨rfl, ?_⟩⟩
      · rw [finishes, htag, hopen]
        rfl
      · rw [htag]
        rfl
      · rw [htag]
        rintro tag ⟨⟩
        rfl
  · have htag : tagOf s.element (.endClose name) = none := if_neg hcase
    unfold closed
    rw [if_neg hcase]
    split_ifs <;> exact Follows.of_same htag rfl rfl rfl (Or.inr rfl)

theorem follows_addDetail (s : JunitStream) (detail : Text) (htag : tagOf s.element token = none)
    (helement : nextElement s.element token = s.element) :
    s.Follows parsers token (s.addDetail detail) := by
  unfold addDetail
  split_ifs
  · exact Follows.of_same htag helement.symm rfl Option.isSome_map (Or.inr rfl)
  · exact Follows.of_same htag helement.symm rfl rfl (Or.inr rfl)

theorem follows_token (h : s.token parsers token = some next) : s.Follows parsers token next := by
  match token, h with
  | .elementStart name, h =>
    cases h
    exact Follows.of_same rfl rfl rfl rfl (Or.inr rfl)
  | .attribute name value, h =>
    cases h
    exact Follows.of_same rfl rfl rfl rfl (Or.inr rfl)
  | .endOpen, h =>
    cases h
    exact follows_endOpen s
  | .endEmpty, h =>
    cases h
    exact follows_endEmpty s
  | .endClose name, h =>
    cases h
    exact follows_endClose s name
  | .text content, h =>
    cases h
    exact follows_addDetail s _ rfl rfl
  | .cdata content, h =>
    cases h
    exact follows_addDetail s _ rfl rfl
  | .other, h =>
    cases h
    exact Follows.of_same rfl rfl rfl rfl (Or.inr rfl)

/-! ### A run over the tokens -/

def isError : XmlToken → Bool
  | .error => true
  | _ => false

theorem token_eq_none_iff (parsers : ReportParsers) (s : JunitStream) (token : XmlToken) : s.token parsers token = none ↔ isError token = true := by
  match token with
  | .error => exact iff_of_true rfl rfl
  | .elementStart _ | .attribute _ _ | .endOpen | .endEmpty | .endClose _ | .text _ | .cdata _
  | .other => exact iff_of_false (fun h => by cases h) (fun h => by cases h)

/-- The state after the tokens. -/
def run (parsers : ReportParsers) (s : JunitStream) (tokens : List XmlToken) :
    Option JunitStream := tokens.foldlM (JunitStream.token parsers) s

theorem run_cons (s : JunitStream) (token : XmlToken) (rest : List XmlToken) :
    s.run parsers (token :: rest) = (s.token parsers token).bind fun next =>
      next.run parsers rest := rfl

theorem run_isSome_iff (parsers : ReportParsers) (s : JunitStream) (tokens : List XmlToken) :
    (s.run parsers tokens).isSome = true ↔ tokens.all (fun token => !isError token) = true := by
  induction tokens generalizing s with
  | nil => exact iff_of_true rfl rfl
  | cons token rest ih =>
    rw [run_cons, List.all_cons, Bool.and_eq_true, Bool.not_eq_true', Bool.eq_false_iff, ne_eq,
      ← token_eq_none_iff parsers s]
    cases s.token parsers token with
    | none => simp
    | some next => simp [ih]

/-- The report after a run holds the finished cases. -/
theorem run_report {s' : JunitStream} (tokens : List XmlToken) (s : JunitStream)
    (h : s.run parsers tokens = some s') :
    s'.report = (s.finished parsers tokens).foldl RunnerTestReport.finish s.report := by
  induction tokens generalizing s with
  | nil =>
    cases h
    rfl
  | cons token rest ih =>
    rw [run_cons] at h
    cases hnext : s.token parsers token with
    | none =>
      rw [hnext] at h
      cases h
    | some next =>
      rw [hnext] at h
      rw [ih next h, finished, hnext, (follows_token hnext).report, List.foldl_append]
      cases s.finishes parsers token <;> rfl

/-- As many cases are finished as the tags say. -/
theorem length_finished {s' : JunitStream} (tokens : List XmlToken) (s : JunitStream)
    (h : s.run parsers tokens = some s') :
    (s.finished parsers tokens).length =
      countedFrom s.case.isSome (caseTags s.element tokens) := by
  induction tokens generalizing s with
  | nil => rfl
  | cons token rest ih =>
    rw [run_cons] at h
    cases hnext : s.token parsers token with
    | none =>
      rw [hnext] at h
      cases h
    | some next =>
      rw [hnext] at h
      have hfollows := follows_token hnext
      have hopen := hfollows.open_case
      rw [finished, hnext, caseTags]
      dsimp only
      rw [List.length_append, ih next h, hfollows.element, finishes]
      cases htag : tagOf s.element token with
      | none =>
        rw [htag] at hopen
        rw [hopen]
        exact Nat.zero_add _
      | some tag =>
        rw [htag] at hopen
        rw [hopen]
        cases tag with
        | opened => exact Nat.zero_add _
        | empty => exact Nat.add_comm _ _
        | closed =>
          show s.case.toList.length + countedFrom false _ =
            countedFrom false _ + s.case.isSome.toNat
          rw [Nat.add_comm]
          cases s.case <;> rfl

/-- A run that meets a test case knows that the document is a test report. -/
theorem run_root {s' : JunitStream} (tokens : List XmlToken) (s : JunitStream)
    (h : s.run parsers tokens = some s') (hroot : s'.sawTestcaseRoot = false) :
    s.sawTestcaseRoot = false ∧ ∀ tag ∈ caseTags s.element tokens, tag = .closed := by
  induction tokens generalizing s with
  | nil =>
    cases h
    exact ⟨hroot, fun _ h => by cases h⟩
  | cons token rest ih =>
    rw [run_cons] at h
    cases hnext : s.token parsers token with
    | none =>
      rw [hnext] at h
      cases h
    | some next =>
      rw [hnext] at h
      obtain ⟨hnextRoot, hrest⟩ := ih next h
      have hfollows := follows_token hnext
      rcases hfollows.root with htrue | ⟨hsame, htag⟩
      · rw [htrue] at hnextRoot
        cases hnextRoot
      · refine ⟨hsame.symm.trans hnextRoot, fun tag hmem => ?_⟩
        rcases List.mem_append.mp hmem with hmem | hmem
        · exact htag tag (Option.mem_toList.mp hmem)
        · exact hrest tag (hfollows.element ▸ hmem)

end JunitStream

end Reports

end OoreBuild
