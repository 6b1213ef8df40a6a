import InlineMacro.Proofs.Run.Success
import InlineMacro.Proofs.Syntax.ClosedText

/-!
# Macros as one line

The body of a macro is printed, cut into lines, and glued again with continuations. A preprocessor
puts the continued lines together first: what it sees is one line with the tokens of the body, where
all literals are closed on their lines.
-/

set_option autoImplicit false

namespace InlineMacro

open Text (spliced tokens isClosed)

namespace Function

variable {function : Function} {name namespaceName : String} {parameters : List String}

def bodyText (function : Function) : String :=
  Printer.unlines (Printer.statementsLines 1 function.statements)

def macroHead (name namespaceName : String) (parameters : List String) : String :=
  "#define " ++ name ++ "(" ++ Text.join ", " (namespaceName :: parameters) ++ ")"

def KeepsTokens (name namespaceName : String) (parameters : List String) (function : Function) : Prop :=
  ∃ replacement : List Char,
    spliced (function.macroText name namespaceName parameters).toList =
      (macroHead name namespaceName parameters).toList ++ ' ' :: replacement ++ ['\n', '\n'] ∧
    '\n' ∉ (macroHead name namespaceName parameters).toList ++ replacement ∧
    tokens replacement =
      ["do", "\x7b"] ++ tokens (spliced function.bodyText.toList) ++ ["\x7d", "while", "(", "0", ")"]

/-! ## Lines that are put together -/

theorem spliced_continuedLine {line : String} (whole : '\n' ∉ line.toList) (rest : String) :
    spliced (continuedLine line ++ "\n" ++ rest).toList =
      line.toList ++ ' ' :: spliced rest.toList := by
  have same : (continuedLine line ++ "\n" ++ rest).toList =
      line.toList ++ ' ' :: '\\' :: '\n' :: rest.toList := by
    simp [continuedLine, String.toList_append]
  rw [same, Text.spliced_continued whole]

theorem spliced_continuedLines {lines : List String} (some : lines ≠ [])
    (whole : ∀ line ∈ lines, '\n' ∉ line.toList) (last : String) :
    spliced (Text.join "\n" (lines.map continuedLine) ++ "\n" ++ last).toList =
      lines.flatMap (fun line => line.toList ++ [' ']) ++ spliced last.toList := by
  induction lines with
  | nil => exact absurd rfl some
  | cons line lines ih =>
    rw [List.forall_mem_cons] at whole
    rw [List.flatMap_cons, List.append_assoc, List.append_assoc, List.singleton_append]
    cases lines with
    | nil => exact spliced_continuedLine whole.1 last
    | cons next others =>
      rw [← ih nofun whole.2, ← spliced_continuedLine whole.1]
      simp only [List.map_cons, Text.join, String.append_assoc]

theorem tokens_lines {lines : List String} (closed : ∀ line ∈ lines, isClosed line) (last : List Char) :
    tokens (lines.flatMap (fun line => line.toList ++ [' ']) ++ last) =
      lines.flatMap (fun line => tokens line.toList) ++ tokens last := by
  induction lines with
  | nil => rfl
  | cons line lines ih =>
    rw [List.forall_mem_cons] at closed
    rw [List.flatMap_cons, List.append_assoc, List.append_assoc, List.singleton_append,
      Text.tokens_append closed.1 (by decide), ih closed.2, List.flatMap_cons, List.append_assoc]

theorem bodyLines_closed (closed : isClosed function.bodyText) :
    (∀ line ∈ function.bodyLines, isClosed line ∧ '\n' ∉ line.toList) ∧
      function.bodyLines.flatMap (fun line => tokens line.toList) = tokens function.bodyText.toList := by
  obtain ⟨each, all⟩ := Text.tokens_linesOfPieces function.bodyText.toList closed
  change (∀ line ∈ (Text.linesOfPieces _).map String.ofList, _) ∧
    ((Text.linesOfPieces _).map String.ofList).flatMap _ = _
  rw [List.flatMap_map]
  simp only [String.toList_ofList]
  refine ⟨List.forall_mem_map.mpr fun line member => ?_, all⟩
  rw [isClosed, String.toList_ofList]
  exact each line member

theorem not_mem_join {separator : String} {texts : List String}
    (between : '\n' ∉ separator.toList) (each : ∀ text ∈ texts, '\n' ∉ text.toList) :
    '\n' ∉ (Text.join separator texts).toList := by
  induction texts with
  | nil => exact List.not_mem_nil
  | cons text texts ih =>
    rw [List.forall_mem_cons] at each
    cases texts with
    | nil => exact each.1
    | cons =>
      rw [Text.join, String.toList_append, String.toList_append, List.mem_append, List.mem_append]
      · exact not_or.mpr ⟨not_or.mpr ⟨each.1, between⟩, ih each.2⟩
      · exact nofun

theorem exists_macroLines (closed : isClosed function.bodyText) (name namespaceName : String)
    (parameters : List String) : ∃ lines : List String, function.macroText name namespaceName parameters =
        continuedLine (macroHead name namespaceName parameters) ++ "\n" ++
          (continuedLine "do \x7b" ++ "\n" ++
            (Text.join "\n" (lines.map continuedLine) ++ "\n" ++ "\x7d while(0)\n\n")) ∧
      lines ≠ [] ∧ (∀ line ∈ lines, isClosed line ∧ '\n' ∉ line.toList) ∧
      lines.flatMap (fun line => tokens line.toList) = tokens function.bodyText.toList := by
  obtain ⟨each, all⟩ := function.bodyLines_closed closed
  have text (lines : List String) :
      "#define " ++ name ++ "(" ++ Text.join ", " (namespaceName :: parameters) ++ ") \\\n" ++
          "do \x7b \\\n" ++ Text.join "\n" (lines.map continuedLine) ++ "\n\x7d while(0)\n\n" =
        continuedLine (macroHead name namespaceName parameters) ++ "\n" ++
          (continuedLine "do \x7b" ++ "\n" ++
            (Text.join "\n" (lines.map continuedLine) ++ "\n" ++ "\x7d while(0)\n\n")) := by
    have first : ") \\\n" = ")" ++ " \\" ++ "\n" := by decide
    have second : "do \x7b \\\n" = "do \x7b" ++ " \\" ++ "\n" := by decide
    have third : "\n\x7d while(0)\n\n" = "\n" ++ "\x7d while(0)\n\n" := by decide
    rw [first, second, third]
    simp only [macroHead, continuedLine, String.append_assoc]
  rw [macroText]
  cases found : function.bodyLines with
  | nil =>
    rw [found] at all
    exact ⟨[""], text [""], nofun, List.forall_mem_singleton.mpr ⟨by decide, nofun⟩, all⟩
  | cons line lines =>
    rw [found] at each all
    exact ⟨line :: lines, text (line :: lines), nofun, each, all⟩

/-- Where every literal in the body is closed on its line, the macro is one line with the tokens of the
body. -/
theorem macroText_keepsTokens
    (oneLine : ∀ text ∈ name :: namespaceName :: parameters, '\n' ∉ text.toList)
    (closed : Node.Closed (Statement.listNodes function.statements)) :
    function.KeepsTokens name namespaceName parameters := by
  have closedBody : isClosed function.bodyText := Statement.isClosed_unlines 1 closed
  obtain ⟨lines, text, some, each, all⟩ :=
    exists_macroLines closedBody name namespaceName parameters
  have head : '\n' ∉ (macroHead name namespaceName parameters).toList := by
    rw [List.forall_mem_cons] at oneLine
    have between : '\n' ∉ ", ".toList := by decide
    have names := not_mem_join between oneLine.2
    simp [macroHead, String.toList_append, oneLine.1, names]
  let body := lines.flatMap fun line => line.toList ++ [' ']
  have whole : '\n' ∉ body := by
    intro member
    obtain ⟨line, isLine, inside⟩ := List.mem_flatMap.mp member
    rcases List.mem_append.mp inside with inside | blank
    · exact (each line isLine).2 inside
    · cases List.mem_singleton.mp blank
  have last : spliced "\x7d while(0)\n\n".toList = "\x7d while(0)".toList ++ ['\n', '\n'] := by
    decide
  refine ⟨"do \x7b".toList ++ ' ' :: (body ++ "\x7d while(0)".toList), ?_, ?_, ?_⟩
  · rw [text, spliced_continuedLine head, spliced_continuedLine (by decide),
      spliced_continuedLines some fun line member => (each line member).2, last]
    simp [body, List.append_assoc]
  · simp [head, whole]
  · rw [Text.spliced_closed closedBody, Text.tokens_append (by decide) (by decide),
      tokens_lines fun line member => (each line member).1, all]
    rfl

/-- A body of a type, quotes in literals and a line that is cut. -/
theorem macroText_keepsTokens_of_literals :
    ∃ unit, CompilationUnit.parse
        "void f(char *s) \x7b
          struct S \x7b int x; \x7d y;
          if (*s == '\"') g(\"'\\\"\" L\"b\", '\\'', y); else again: ;
        \x7d" = .ok unit ∧
      ∃ function ∈ unit.functions,
        ((∀ text ∈ "macro_f" :: "namespace" :: ["s_0"], '\n' ∉ text.toList) ∧
          Node.Closed (Statement.listNodes function.statements)) ∧
        function.KeepsTokens "macro_f" "namespace" ["s_0"] := by
  refine CompilationUnit.exists_parsed _
    (fun unit => decide (∃ function ∈ unit.functions,
      Node.Closed (Statement.listNodes function.statements)))
    (by decide +kernel) ?_
  intro unit _ checked
  obtain ⟨function, member, closed⟩ := of_decide_eq_true checked
  have oneLine : ∀ text ∈ "macro_f" :: "namespace" :: ["s_0"], '\n' ∉ text.toList := by decide
  exact ⟨function, member, ⟨oneLine, closed⟩, macroText_keepsTokens oneLine closed⟩

/-- A literal with a continued line in it gets a blank there. -/
theorem macroText_changes_literal :
    ∃ unit, CompilationUnit.parse "void f(void) \x7b g(\"a\\\nb\"); \x7d" = .ok unit ∧
      ∃ function ∈ unit.functions, ¬function.KeepsTokens "macro_f" "namespace" [] := by
  refine CompilationUnit.exists_parsed _
    (fun unit => decide (∃ function ∈ unit.functions,
      "\"ab\"" ∈ tokens (spliced function.bodyText.toList) ∧
      "\"ab\"" ∉ tokens ((((spliced (function.macroText "macro_f" "namespace" []).toList).drop
        ((macroHead "macro_f" "namespace" []).toList.length + 1)).dropLast).dropLast)))
    (by decide +kernel) ?_
  intro unit _ checked
  obtain ⟨function, member, stands, lost⟩ := of_decide_eq_true checked
  refine ⟨function, member, ?_⟩
  rintro ⟨replacement, same, -, kept⟩
  have parted : (((spliced (function.macroText "macro_f" "namespace" []).toList).drop
      ((macroHead "macro_f" "namespace" []).toList.length + 1)).dropLast).dropLast = replacement := by
    rw [same, List.append_assoc, ← List.drop_drop, List.drop_left, List.cons_append, List.drop_succ_cons,
      List.drop_zero]
    simp
  rw [parted, kept] at lost
  exact lost (List.mem_append_left _ (List.mem_append_right _ stands))

end Function

end InlineMacro
